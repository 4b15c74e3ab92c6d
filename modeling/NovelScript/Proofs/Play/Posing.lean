import NovelScript.Proofs.Play.Resume
import NovelScript.Proofs.Play.Turns

/-! # Waiting for an answer

The tokens of a conversation build a choice, and it is posed where the conversation ends. Between
the two a token may yield, and a call to play on is then refused because of a choice that nobody was
asked. That happens in a conversation only: a player that is refused between conversations waits for
a choice that was posed. -/

namespace NovelScript

namespace Play

variable {μ : Type}

/-- The choice was posed: playback stands still for it, and it is the last thing that was shown. -/
def Posed (p : Player μ) : Prop :=
  p.state.status = .choice ∧ ∃ choice s, p.state.choice = some choice ∧
    p.backlog.getLast? = some ⟨.choice choice, s⟩

/-! ## Event tokens -/

/-- Operations that leave the choice alone. -/
def KeepsChoice {α : Type} (op : Play μ α) : Prop :=
  ∀ p, (op p).2.state.choice = p.state.choice

/-- Operations that leave the choice alone or take it away. -/
def Settles {α : Type} (op : Play μ α) : Prop :=
  ∀ p, (op p).2.state.choice = p.state.choice ∨ (op p).2.state.choice = none

theorem KeepsChoice.settles {α : Type} {op : Play μ α} (h : KeepsChoice op) : Settles op :=
  fun p => .inl (h p)

theorem KeepsChoice.bind {α β : Type} {x : Play μ α} {f : α → Play μ β} (hx : KeepsChoice x)
    (hf : ∀ a, KeepsChoice (f a)) : KeepsChoice (x >>= f) :=
  bind_relates (R := fun p p' => p'.state.choice = p.state.choice) (fun h h' => h'.trans h) hx hf

theorem Settles.bind {α β : Type} {x : Play μ α} {f : α → Play μ β} (hx : Settles x)
    (hf : ∀ a, Settles (f a)) : Settles (x >>= f) := by
  refine bind_relates (R := fun p p' => p'.state.choice = p.state.choice ∨ p'.state.choice = none)
    (fun h h' => ?_) hx hf
  rcases h' with h' | h'
  · rw [h']
    exact h
  · exact .inr h'

theorem Settles.takeChoice : Settles (takeChoice (μ := μ)) := by
  refine Settles.bind (fun _ => .inl rfl) fun s => ?_
  cases s.choice with
  | none => exact fun _ => .inl rfl
  | some choice =>
    simp only
    split
    · exact fun _ => .inr rfl
    · exact fun _ => .inl rfl

theorem KeepsChoice.evaluating {α : Type} {e : Evaluation PlayState α} (he : e.OnCells) :
    KeepsChoice (evaluating (μ := μ) e) :=
  fun p => (OffStage.evaluating he p).choice

theorem KeepsChoice.pushVoice (name : String) : KeepsChoice (pushVoice (μ := μ) name) :=
  fun p => (OffStage.pushVoice name p).choice

variable [MediaSource μ]

/-- What event tokens do in their chunk leaves the choice alone, but for taking it away. -/
theorem keepsChoiceLaws : Performing (μ := μ) KeepsChoice where
  toOnScreen := .of_shows fun h p => (h p).choice
  pure _ _ := rfl
  bind := KeepsChoice.bind
  lift _ _ := rfl
  ask _ _ := rfl
  evaluating he _ := KeepsChoice.evaluating he
  setRegister _ _ := rfl
  pushVoice := KeepsChoice.pushVoice

theorem settlesLaws : Staying (μ := μ) Settles where
  toOnScreen := .of_shows fun h p => .inl (h p).choice
  takeChoice := Settles.takeChoice
  pure a := (keepsChoiceLaws.pure a).settles
  bind := Settles.bind
  lift h := (keepsChoiceLaws.lift h).settles
  ask h := (keepsChoiceLaws.ask h).settles
  evaluating he h := (keepsChoiceLaws.evaluating he h).settles
  setRegister value := (keepsChoiceLaws.setRegister value).settles
  pushVoice name := (keepsChoiceLaws.pushVoice name).settles

omit [MediaSource μ] in
theorem choicePending_of_choice {s s' : PlayState}
    (h : s'.choice = s.choice ∨ s'.choice = none) (hpending : s'.choicePending = true) :
    s.choicePending = true := by
  rcases h with h | h
  · rwa [PlayState.choicePending, h] at hpending
  · rw [PlayState.choicePending, h] at hpending
    cases hpending

/-! ## Where a choice waits -/

/-- No choice waits for an answer outside of a conversation. -/
def Settled (p : Player μ) : Prop := p.state.choicePending = true → p.state.conv ≠ none

omit [MediaSource μ] in
theorem Settled.offStage {p p' : Player μ} (h : Settled p) (hstage : OffStage p p') :
    Settled p' := by
  intro hpending
  rw [hstage.position]
  exact h (choicePending_of_choice (.inl hstage.choice) hpending)

omit [MediaSource μ] in
theorem Settled.goes {op : OpToken EventAction} {p : Player μ}
    {run : Except Fault Unit × Player μ} (h : Settled p) (hgoes : Goes op p run) :
    Settled run.2 := by
  rcases hgoes.offStage with hstage | ⟨position, tokens, hrun⟩
  · exact h.offStage hstage
  · rw [hrun]
    exact fun _ hnone => by cases hnone

/-- The event tokens were read from a chunk of a script. -/
def ReadEvents (p : Player μ) : Prop :=
  ∃ script : Script, ∃ known chunk, (script.tokenizeEvent known chunk false).result = .ok p.events

omit [MediaSource μ] in
theorem ReadEvents.offStage {p p' : Player μ} (h : ReadEvents p) (hstage : OffStage p p') :
    ReadEvents p' := by
  rcases hstage.events with hsame | hread
  · unfold ReadEvents
    rw [hsame]
    exact h
  · exact hread

theorem ReadEvents.new {media : μ} {recorder : Recorder} {options : RuntimeOptions}
    {p : Player μ} (h : (Player.new media recorder options).1 = .ok p) : ReadEvents p := by
  obtain ⟨_, script, events, _, _, hevents, rfl⟩ := new_ok h
  exact ⟨script, [], 0, hevents⟩

/-- Event tokens that a turn brings in were read from a chunk, too. -/
theorem ReadEvents.advance {p : Player μ} (h : ReadEvents p) : ReadEvents (advance p).2 := by
  have hturn := advance_turn p
  generalize Play.advance p = run at hturn ⊢
  cases hturn with
  | @token t htoken =>
    obtain ⟨token, position, hpast⟩ := p.pastToken_cases
    have hread : ReadEvents p.pastToken := by
      rw [hpast]
      exact h
    rcases playToken_cases t p.pastToken with ⟨hunmoved, _⟩ | ⟨op, _, hgoes⟩
    · have hevents := congrArg Standing.events hunmoved.standing
      obtain ⟨script, known, chunk, hresult⟩ := hread
      exact ⟨script, known, chunk, hresult.trans (congrArg Except.ok hevents.symm)⟩
    · rcases hgoes.offStage with hstage | ⟨position, tokens, hrun⟩
      · exact hread.offStage hstage
      · rw [hrun]
        exact hread
  | chunk hidle htoken => exact h.offStage (OffStage.setEvent _ p)
  | poses htalks htoken hpending =>
    have hevents := congrArg Standing.events (Stationary.poseChoice p.outOfConversation).standing
    obtain ⟨script, known, chunk, hresult⟩ := h
    exact ⟨script, known, chunk, hresult.trans (congrArg Except.ok hevents.symm)⟩
  | ends htalks htoken hpending => exact h

/-! ## Turns -/

/-- The parts of a player belong together, and a choice that waits for an answer between
conversations was posed. -/
structure PosesFirst (p : Player μ) : Prop extends p.WellFormed where
  read : ReadEvents p
  waits : p.state.choicePending = true → p.state.conv = none → Posed p
  idle : p.state.status = .choice → p.state.conv = none

/-- No choice has been posed, and none waits outside of a conversation. -/
structure Unposed (p : Player μ) : Prop where
  settled : Settled p
  status : p.state.status ≠ .choice

omit [MediaSource μ] in
theorem PosesFirst.unposed {p : Player μ} (h : PosesFirst p)
    (hrunning : p.state.status = .running) : Unposed p := by
  refine ⟨fun hpending hidle => ?_, by simp [hrunning]⟩
  have hposed := (h.waits hpending hidle).1
  rw [hrunning] at hposed
  cases hposed

/-- Between conversations an event token is played, which opens no choice. -/
theorem Settled.playEvent {p : Player μ} (h : Settled p) {t : Token}
    (hkind : (∃ op, t.kind = .event op) ∨ ∃ view, t.kind = .data view) :
    Settled (playToken t p).2 := by
  have hsettled : Settles (playToken (μ := μ) t) → Unmoved p (playToken t p).2 →
      Settled (playToken t p).2 := by
    intro hsettles hunmoved hpending
    rw [hunmoved.position]
    exact h (choicePending_of_choice (hsettles p) hpending)
  rcases playToken_cases t p with ⟨hunmoved, hquiet⟩ | ⟨op, _, hgoes⟩
  · refine hsettled ?_ hunmoved
    unfold playToken
    rcases hkind with ⟨op, hkind⟩ | ⟨view, hkind⟩
    · rw [hkind]
      exact settlesLaws.playEvent (hquiet op hkind)
    · rw [hkind]
      exact settlesLaws.unplayable t
  · exact h.goes hgoes

omit [MediaSource μ] in
/-- In a conversation no event token is played. -/
theorem Loaded.kind_of_nextToken? {p : Player μ} (hp : Loaded p) (htalks : p.isIdle = false)
    {t : Token} (htoken : p.nextToken? = some t) (op : OpToken EventAction) :
    t.kind ≠ .event op := by
  obtain ⟨tokens, position, hconv, hposition⟩ := Player.isIdle_eq_false htalks
  obtain ⟨tokens', hconv', hread⟩ := hp.conv_eq_some hposition
  obtain rfl := Option.some.inj (hconv.symm.trans hconv')
  rw [Player.nextToken?_of_talking hconv hposition] at htoken
  exact Script.kind_of_mem_tokenizeConv hread (List.mem_of_getElem? htoken) op

omit [MediaSource μ] in
/-- Between conversations an event token is played, or one that stands for data. -/
theorem ReadEvents.kind_of_nextToken? {p : Player μ} (h : ReadEvents p) (hidle : p.isIdle = true)
    {t : Token} (htoken : p.nextToken? = some t) :
    (∃ op, t.kind = .event op) ∨ ∃ view, t.kind = .data view := by
  obtain ⟨script, known, chunk, hread⟩ := h
  rw [Player.nextToken?_of_idle hidle] at htoken
  exact Script.kind_of_mem_events hread (List.mem_of_getElem? htoken)

/-- A turn that poses no choice. -/
theorem PosesFirst.token {p : Player μ} (h : PosesFirst p) (hrunning : p.state.status = .running)
    {t : Token} (htoken : p.nextToken? = some t) : Unposed (playToken t p.pastToken).2 := by
  have hplaying : Playing p := ⟨h.toStaged, by simp [hrunning], by simp [hrunning]⟩
  obtain ⟨token, position, hpast⟩ := p.pastToken_cases
  have hmoved : Playing p.pastToken := by
    rw [hpast]
    exact Playing.same (p := p) ⟨rfl, rfl, rfl, rfl, rfl, rfl, rfl, rfl⟩ hplaying
  cases hidle : p.isIdle with
  | true =>
    have hkind := h.read.kind_of_nextToken? hidle htoken
    rw [Player.nextToken?_of_idle hidle] at htoken
    have hsettled : Settled p.pastToken := by
      rw [Player.pastToken_of_idle hidle]
      exact (h.unposed hrunning).settled
    refine ⟨hsettled.playEvent hkind, ?_⟩
    refine (Playing.stageLaws.playToken hmoved t fun block hblock => ?_).posed
    exact absurd hblock (h.events t (List.mem_of_getElem? htoken) block)
  | false =>
    have hkind := h.toLoaded.kind_of_nextToken? hidle htoken
    obtain ⟨tokens, position, hconv, hposition⟩ := Player.isIdle_eq_false hidle
    have htalks : p.pastToken.state.conv ≠ none := by
      rw [Player.pastToken_of_talking hconv hposition]
      exact fun hnone => by cases hnone
    have hstays : Unmoved p.pastToken (playToken t p.pastToken).2 :=
      Stationary.playToken (fun op hop => absurd hop (hkind op)) p.pastToken
    refine ⟨fun _ => ?_, (Playing.stageLaws.playToken hmoved t fun _ _ => htalks).posed⟩
    rw [hstays.position]
    exact htalks

omit [MediaSource μ] in
/-- What comes of posing: a choice without options is dropped, and any other one is posed; it waits
for an answer if the front end gives none. -/
theorem poseChoice_posed {p : Player μ} (hidle : p.state.conv = none)
    (hstatus : p.state.status ≠ .choice) (hpending : p.state.choicePending = true) :
    Unposed (poseChoice p).2 ∨ (poseChoice p).1 = .ok () ∧ (poseChoice p).2.state.conv = none ∧
      ((poseChoice p).2.state.choicePending = true → Posed (poseChoice p).2) := by
  obtain ⟨choice, hchoice, _⟩ := PlayState.choicePending_iff.mp hpending
  rw [poseChoice_apply hchoice]
  by_cases hempty : choice.options.isEmpty = true
  · rw [if_pos hempty]
    refine .inl ⟨fun hpending' => ?_, hstatus⟩
    cases hpending'
  · rw [if_neg hempty]
    refine .inr ⟨rfl, hidle, fun hopen =>
      ⟨rfl, choice, { p.state with status := .choice }, ?_, ?_⟩⟩
    · rcases p.recorder.pose_answers choice with hsame | ⟨index, hanswer⟩
      · exact congrArg some hsame
      · -- an answered choice does not wait
        have hanswered := Choice.isAnswered_of_choose hanswer
        have hpending' : (!(p.recorder.pose choice).1.isAnswered) = true := hopen
        rw [hanswered] at hpending'
        cases hpending'
    · exact List.getLast?_concat

omit [MediaSource μ] in
theorem PosesFirst.ofUnposed {p : Player μ} (hwell : p.WellFormed) (hread : ReadEvents p)
    (h : Unposed p) : PosesFirst p where
  toWellFormed := hwell
  read := hread
  waits hpending hidle := absurd hidle (h.settled hpending)
  idle hposed := absurd hposed h.status

/-- A turn poses no choice, or it is the end of a conversation. -/
theorem PosesFirst.turn {p : Player μ} (h : PosesFirst p) (hrunning : p.state.status = .running) :
    Unposed (advance p).2 ∨ (advance p).1 = .ok () ∧ (advance p).2.state.conv = none ∧
      ((advance p).2.state.choicePending = true → Posed (advance p).2) := by
  have hunposed := h.unposed hrunning
  have hturn := advance_turn p
  generalize advance p = run at hturn ⊢
  cases hturn with
  | token htoken => exact .inl (h.token hrunning htoken)
  | chunk hidle htoken =>
    have hstage := OffStage.setEvent (p.state.chunk + 1) p
    exact .inl ⟨hunposed.settled.offStage hstage, fun hposed => hunposed.status
      (hstage.status.symm.trans hposed)⟩
  | poses htalks htoken hpending => exact poseChoice_posed rfl hunposed.status hpending
  | ends htalks htoken hpending =>
    refine .inr ⟨rfl, rfl, fun hpending' => ?_⟩
    exact absurd (hpending.symm.trans hpending') Bool.false_ne_true

theorem PosesFirst.advance {p : Player μ} (h : PosesFirst p)
    (hrunning : p.state.status = .running) : PosesFirst (advance p).2 := by
  have hwell := (h.toWellFormed.advance hrunning).1
  rcases h.turn hrunning with hunposed | ⟨_, hidle, hposed⟩
  · exact .ofUnposed hwell h.read.advance hunposed
  · exact ⟨hwell, h.read.advance, fun hpending _ => hposed hpending, fun _ => hidle⟩

omit [MediaSource μ] in
/-- An answer is refused, or the choice is answered. -/
theorem choose_answers (index : Nat) (p : Player μ) :
    (choose index p).2 = p ∨ ∃ choice answered, p.state.choice = some choice ∧
      choice.choose index = .ok answered ∧
        (choose index p).2 = { p with state := { p.state with choice := some answered } } := by
  rw [choose_apply]
  cases p.state.choice with
  | none => exact .inl rfl
  | some choice =>
    simp only
    cases hchoose : choice.choose index with
    | error fault => exact .inl rfl
    | ok answered => exact .inr ⟨choice, answered, rfl, hchoose, rfl⟩

theorem posesFirstLaws : RunLaws (μ := μ) (fun _ => False) PosesFirst where
  begins h hallowed := by
    refine .ofUnposed (h.toWellFormed.setStatus (by decide)) h.read ⟨fun hpending => ?_, ?_⟩
    · exact absurd (.inl hpending) hallowed
    · exact fun hposed => by cases hposed
  plays h hrunning _ _ := h.advance hrunning
  skips h hrunning _ _ := h.advance hrunning
  stops {p fault} h hrunning hfault := by
    refine .ofUnposed ((h.toWellFormed.advance hrunning).1.setStatus (by decide)) h.read.advance ?_
    rcases h.turn hrunning with hunposed | ⟨hok, _⟩
    · exact ⟨hunposed.settled, fun hposed => by cases hposed⟩
    · rw [hok] at hfault
      cases hfault
  choose index p h := by
    have hwell := Player.WellFormed.choose index p h.toWellFormed
    rcases choose_answers index p with hsame | ⟨_, answered, _, hchoose, hrun⟩
    · rwa [hsame]
    · rw [hrun] at hwell ⊢
      refine ⟨hwell, h.read, fun hpending => ?_, h.idle⟩
      simp [PlayState.choicePending, Choice.isAnswered_of_choose hchoose] at hpending

/-! ## Refusals -/

theorem PosesFirst.new {media : μ} {recorder : Recorder} {options : RuntimeOptions}
    {p : Player μ} (h : (Player.new media recorder options).1 = .ok p) : PosesFirst p := by
  obtain ⟨_, _, _, hstate⟩ := new_spec h
  refine .ofUnposed (.new h) (ReadEvents.new h) ⟨?_, ?_⟩
  · rw [Settled, hstate]
    exact fun hpending => by cases hpending
  · rw [hstate]
    exact fun hposed => by cases hposed

/-- Only a call that does not play at all tells that a choice waits. -/
theorem choicePending_of_refused {budget : Nat} {p : Player μ}
    (h : (process budget p).1 = .error (.state .choiceWaiting)) : p.state.choicePending = true := by
  rw [process_apply] at h
  cases hrefusal : refusal? p.options p.state with
  | some fault =>
    rw [hrefusal] at h
    obtain rfl := Except.error.inj h
    unfold refusal? at hrefusal
    split at hrefusal
    · assumption
    · split at hrefusal
      · cases hrefusal
      · split at hrefusal
        · cases hrefusal
        · cases hrefusal
  | none =>
    rw [hrefusal] at h
    rcases playTokens_fails h with hexhausted | ⟨_, _, _, _, _, hplace, _⟩
    · cases hexhausted
    · cases hplace

/-- A player that refuses to play on because of a choice stands between conversations if and only if
the choice was posed. In a conversation playback waits for a choice that nobody was asked. -/
theorem refused_choice_posed_iff {media : μ} {recorder : Recorder} {options : RuntimeOptions}
    {start : Player μ} (hnew : (Player.new media recorder options).1 = .ok start)
    {calls : List Call} (hcalls : calls.all Call.goesOn = true) {budget : Nat}
    (hrefused : (process budget (start.after calls)).1 = .error (.state .choiceWaiting)) :
    Posed (start.after calls) ↔ (start.after calls).state.conv = none := by
  have hback : ∀ index, .jumpBack index ∈ calls →
      Keeps (PosesFirst (μ := μ)) (jumpBack index) :=
    fun index hindex => absurd hindex (Call.jumpBack_not_mem hcalls index)
  have hposes := (posesFirstLaws.always hback (.new hnew)).2
  have hpending := choicePending_of_refused hrefused
  exact ⟨fun hposed => hposes.idle hposed.1, hposes.waits hpending⟩

/-- A question with one option, and then a token that waits for the reader: the conversation is not
over, and going on is refused, because of a choice that is not posed. -/
theorem refused_choice_unposed :
    let media := FixedMedia.onlyScript "op00" [0x53, 0x43, 0x33, 0x00, 19, 0, 0, 0, 23, 0, 0, 0,
      16, 0, 0, 0, 0xff, 0, 0, 23, 0, 0, 0, 0x0b, 0, 5, 0, 0x0b, 1, 0x42, 1, 2]
    ∃ start, (Player.new media (.new .unanswered) .default).1 = .ok start ∧
      let p := start.after [.process 9]
      (process 9 start).1 = .ok .userAck ∧
        (process 9 p).1 = .error (.state .choiceWaiting) ∧ ¬ Posed p := by
  intro media
  obtain ⟨start, hstart, hok, hrefused, hconv⟩ :
      ∃ start ∈ (Player.new media (.new .unanswered) .default).1.toOption,
        (process 9 start).1.toOption = some .userAck ∧
        faultOf? (process 9 (start.after [.process 9])).1 = some (.state .choiceWaiting) ∧
        (start.after [.process 9]).state.conv.isSome = true := by
    decide +kernel
  have hrefusal := error_of_faultOf? hrefused
  refine ⟨start, ok_of_toOption hstart, ok_of_toOption hok, hrefusal, fun hposed => ?_⟩
  have hnone := (refused_choice_posed_iff (ok_of_toOption hstart) (by decide) hrefusal).mp hposed
  rw [hnone] at hconv
  cases hconv

end Play

end NovelScript
