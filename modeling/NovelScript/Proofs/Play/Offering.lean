import NovelScript.Proofs.Play.Posing

/-! # What a choice offers

The option tokens of a conversation add candidates to a choice, and the choice is posed where the
conversation ends. An inquiry remembers of a run what was posed and what was offered, told from the
tokens and from the backlog alone. By it a posed choice stands as it was posed until its answer is
stored, as long as no later conversation offers more; and a conversation that has offered options
poses just these where it ends, as long as nobody has answered before. -/

namespace NovelScript

/-! ## Candidates -/

/-- A candidate that is added to a choice: its text, and whether it is displayed. -/
structure Offer where
  text : String
  shown : Bool
deriving DecidableEq, Repr

namespace Choice

/-- The choice before any answer. -/
def unanswered (c : Choice) : Choice := { c with chosen := none }

/-- The choice with more candidates. -/
def offering (c : Choice) (offers : List Offer) : Choice :=
  offers.foldl (fun c offer => c.add offer.text offer.shown) c

theorem offering_append (c : Choice) (offers more : List Offer) :
    c.offering (offers ++ more) = (c.offering offers).offering more :=
  List.foldl_append

theorem candidates_offering (c : Choice) (offers : List Offer) :
    (c.offering offers).candidates = c.candidates + offers.length := by
  induction offers generalizing c with
  | nil => rfl
  | cons offer offers ih =>
    have hrest := ih (c.add offer.text offer.shown)
    rw [List.length_cons, Nat.add_comm offers.length, ← Nat.add_assoc]
    exact hrest

theorem length_options_offering (c : Choice) (offers : List Offer) :
    (c.offering offers).options.length = c.options.length + offers.countP Offer.shown := by
  induction offers generalizing c with
  | nil => rfl
  | cons offer offers ih =>
    have hrest := ih (c.add offer.text offer.shown)
    have hadded : (c.add offer.text offer.shown).options.length =
        c.options.length + if offer.shown then 1 else 0 := by
      cases hshown : offer.shown with
      | false => simp [add]
      | true => simp [add]
    rw [List.countP_cons, Nat.add_comm (List.countP _ _), ← Nat.add_assoc, ← hadded]
    exact hrest

theorem options_offering_ne_nil (c : Choice) {offers : List Offer}
    (h : offers.any Offer.shown = true) : (c.offering offers).options ≠ [] := by
  obtain ⟨offer, hmem, hshown⟩ := List.any_eq_true.mp h
  have hpositive : 0 < offers.countP Offer.shown := List.countP_pos_iff.mpr ⟨offer, hmem, hshown⟩
  apply List.ne_nil_of_length_pos
  rw [length_options_offering]
  omega

/-- More candidates show in their number. -/
theorem offering_same_iff (c : Choice) (offers : List Offer) :
    (c.offering offers).options = c.options ∧ (c.offering offers).candidates = c.candidates ↔
      offers = [] := by
  constructor
  · rintro ⟨_, hcandidates⟩
    rw [candidates_offering] at hcandidates
    exact List.eq_nil_of_length_eq_zero (by omega)
  · rintro rfl
    exact ⟨rfl, rfl⟩

theorem unanswered_of_choose {c c' : Choice} {index : Nat} (h : c.choose index = .ok c') :
    c'.unanswered = c.unanswered := by
  unfold choose at h
  split at h
  · cases h
  · split at h
    · cases h
      rfl
    · cases h

theorem unanswered_of_open {c : Choice} (h : c.isAnswered = false) : c.unanswered = c := by
  have hchosen : c.chosen = none := by simpa [isAnswered] using h
  rw [unanswered, ← hchosen]

end Choice

theorem Recorder.pose_unanswered (r : Recorder) (choice : Choice) :
    (r.pose choice).1.unanswered = choice.unanswered := by
  rcases r.pose_answers choice with hsame | ⟨index, hanswer⟩
  · rw [hsame]
  · exact Choice.unanswered_of_choose hanswer

/-! ## What a turn offers, poses and stores -/

/-- What an option offers, with its condition evaluated in a state. A question offers nothing. -/
def ChoiceEntry.offer? (entry : ChoiceEntry) (s : PlayState) : Option Offer :=
  match entry with
  | .question _ => none
  | .candidate none text => some ⟨text, true⟩
  | .candidate (some display) text =>
    (display.evaluateOne s).1.toOption.map fun value => ⟨text, value != 0⟩

/-- What a conversation token adds to the choice of a state. The options of one title need no choice
that was opened before. -/
def OpToken.offer? (op : OpToken ConvAction) (s : PlayState) : Option Offer :=
  match op.definition.action with
  | .choiceEntry => if s.choice.isNone then none else (op.choice 0).toOption.bind (·.offer? s)
  | .choiceOption => (op.text 1).toOption.map (⟨·, true⟩)
  | _ => none

namespace Player

variable {μ : Type}

/-- What the next token adds to the choice. -/
def offer? (q : Player μ) : Option Offer :=
  q.nextToken?.bind fun t =>
    match t.kind with
    | .conv op => op.offer? q.pastToken.state
    | _ => none

/-- The player stands behind the last token of a conversation. -/
def EndsConversation (q : Player μ) : Prop := q.isIdle = false ∧ q.nextToken? = none

instance (q : Player μ) : Decidable q.EndsConversation :=
  inferInstanceAs (Decidable (q.isIdle = false ∧ q.nextToken? = none))

variable [MediaSource μ]

/-- The choice that a turn poses: it is what the turn adds to the backlog. -/
def poses? (q : Player μ) : Option Choice :=
  match (Play.advance q).2.backlog[q.backlog.length]? with
  | some ⟨.choice choice, _⟩ => some choice
  | _ => none

/-- The next token stores the answer of the choice, which is then taken away. -/
def stores (q : Player μ) : Bool :=
  match q.nextAction? with
  | some (.choiceStore _) => (Play.advance q).2.state.choice.isNone
  | _ => false

end Player

/-- What is remembered of the turns of a run: the choice that was posed, as it was posed, until its
answer is stored; what was offered since; and what the conversation that is going on has offered. -/
structure Inquiry where
  posed : Option Choice
  since : List Offer
  offers : List Offer
deriving DecidableEq, Repr

namespace Inquiry

/-- Nothing was posed or offered yet. -/
def nothing : Inquiry := ⟨none, [], []⟩

/-- One more turn. -/
def remember {μ : Type} [MediaSource μ] (h : Inquiry) (q : Player μ) : Inquiry where
  posed := if q.stores then none else q.poses?.or h.posed
  since := if q.poses?.isSome then [] else h.since ++ q.offer?.toList
  offers := if q.isIdle then [] else h.offers ++ q.offer?.toList

end Inquiry

/-- What is remembered behind calls. -/
def Player.inquiry {μ : Type} [MediaSource μ] (start : Player μ) (calls : List Call) : Inquiry :=
  (start.turns calls).foldl Inquiry.remember .nothing

namespace Play

variable {μ : Type}

/-! ## Tokens of a conversation -/

/-- What becomes of the choice where an offer is made, or none: without one, a choice may be
opened. -/
def Offers (offer? : Option Offer) (before after : Option Choice) : Prop :=
  match offer? with
  | some offer => after = some ((before.getD (.new none)).add offer.text offer.shown)
  | none => after = before ∨ before = none ∧ ∃ id, after = some (.new id)

theorem Offers.same (choice : Option Choice) : Offers none choice choice := .inl rfl

theorem openChoice_apply (id : Option UInt16) (p : Player μ) :
    openChoice id p =
      match p.state.choice with
      | some _ => (.error (.state .choiceInProgress), p)
      | none => (.ok (), { p with state := { p.state with choice := some (.new id) } }) := by
  rw [openChoice, bind_apply]
  simp only [state]
  cases p.state.choice with
  | some choice => rfl
  | none => rfl

theorem offers_openChoice (id : Option UInt16) (p : Player μ) :
    Offers none p.state.choice (openChoice id p).2.state.choice := by
  rw [openChoice_apply]
  cases hchoice : p.state.choice with
  | some choice => exact .inl hchoice
  | none => exact .inr ⟨rfl, id, rfl⟩

theorem offers_addCandidate (text : String) (display : Bool) (p : Player μ) :
    Offers (if p.state.choice.isNone then none else some ⟨text, display⟩) p.state.choice
      (addCandidate text display p).2.state.choice := by
  rw [addCandidate, bind_apply]
  simp only [state]
  cases hchoice : p.state.choice with
  | none => exact .inl hchoice
  | some choice => rfl

/-- A conversation token adds to the choice what it offers. -/
theorem playConv_offers (op : OpToken ConvAction) (p : Player μ) :
    Offers (op.offer? p.state) p.state.choice (playConv op p).2.state.choice := by
  unfold playConv OpToken.offer?
  cases op.definition.action with
  | userAck => exact .same _
  | «section» => exact .same _
  | choiceEntry =>
    simp only
    rw [bind_apply]
    simp only [lift]
    cases op.choice 0 with
    | error fault =>
      rw [Except.toOption, Option.bind_none, ite_self]
      exact .same _
    | ok entry =>
      cases entry with
      | question id =>
        rw [Except.toOption, Option.bind_some, ChoiceEntry.offer?, ite_self]
        exact offers_openChoice (some id) p
      | candidate display text =>
        cases display with
        | none => exact offers_addCandidate text true p
        | some display =>
          have hkept := KeepsChoice.evaluating (μ := μ) display.onCells_evaluateOne p
          have hvalue : (evaluating display.evaluateOne p).1 =
            (display.evaluateOne p.state).1 := rfl
          rw [Except.toOption, Option.bind_some, ChoiceEntry.offer?, ← hvalue]
          simp only
          rw [bind_apply]
          rcases hrun : evaluating display.evaluateOne p with ⟨outcome, p'⟩
          rw [hrun] at hkept
          cases outcome with
          | error fault =>
            rw [Except.toOption, Option.map_none, ite_self]
            exact .inl hkept
          | ok value =>
            have hadded := offers_addCandidate text (value != 0) p'
            rw [hkept] at hadded
            exact hadded
  | choiceOption =>
    simp only
    rw [bind_apply]
    simp only [lift]
    cases op.text 1 with
    | error fault => exact .same _
    | ok text =>
      have hadded := offers_addCandidate text true p
      simp only
      rw [bind_apply]
      simp only [state]
      cases hchoice : p.state.choice with
      | none =>
        -- this option opens the choice that it is added to
        rw [if_pos Option.isNone_none, bind_apply, openChoice_apply, hchoice]
        rfl
      | some choice =>
        rw [hchoice] at hadded
        exact hadded
  | data => exact .same _
  | linefeed => exact .same _
  | blockPrefix => exact .same _
  | textAux => exact .same _
  | voice => exact .same _

theorem KeepsChoice.unfadeTextbox (time : Duration) :
    KeepsChoice (unfadeTextbox (μ := μ) time) :=
  fun p => (Shows.unfadeTextbox time p).choice

theorem KeepsChoice.takeVoice (source : VoiceSource) : KeepsChoice (takeVoice (μ := μ) source) := by
  cases source with
  | none => exact fun _ => rfl
  | clip name => exact fun _ => rfl
  | pushed => exact fun _ => rfl

/-- Behind one player the backlog of another holds no more, or one more block of text. -/
def AddsText (p p' : Player μ) : Prop :=
  p'.backlog = p.backlog ∨
    ∃ lines voice s, p'.backlog = p.backlog ++ [⟨.textblock lines voice, s⟩]

variable [MediaSource μ]

theorem newTextblock_choice (lines : List String) (voice : Option String) (p : Player μ) :
    (newTextblock lines voice p).2.state.choice = p.state.choice ∧
      AddsText p (newTextblock lines voice p).2 := by
  obtain ⟨fault, media, hrun⟩ | ⟨media, q, hq, hrun⟩ := newTextblock_cases lines voice p
  · rw [hrun]
    exact ⟨rfl, .inl rfl⟩
  · have hchoice : q.state.choice = p.state.choice := hq ▸ KeepsChoice.unfadeTextbox .fade _
    have hbacklog : q.backlog = p.backlog := hq ▸ (loadedLaws.unfadeTextbox .fade _).backlog
    rw [hrun]
    exact ⟨hchoice, .inr ⟨lines, voice, q.state, congrArg (· ++ _) hbacklog⟩⟩

/-- A token of a conversation adds to the choice what it offers, and shows text at most. -/
theorem playToken_offers {t : Token} (hkind : ∀ op, t.kind ≠ .event op) (p : Player μ) :
    Offers (match t.kind with | .conv op => op.offer? p.state | _ => none) p.state.choice
        (playToken t p).2.state.choice ∧
      AddsText p (playToken t p).2 := by
  have hunplayable := keepsChoiceLaws.unplayable t p
  have hstill := loadedLaws.effects.unplayable t p
  unfold playToken
  cases hcase : t.kind with
  | event op => exact absurd hcase (hkind op)
  | conv op => exact ⟨playConv_offers op p, .inl (loadedLaws.effects.playConv op p).backlog⟩
  | text text => exact ⟨.inl hunplayable, .inl hstill.backlog⟩
  | data view => exact ⟨.inl hunplayable, .inl hstill.backlog⟩
  | textblock block =>
    have hchoice := KeepsChoice.takeVoice (μ := μ) block.voice p
    have hbacklog := (takeVoice_still block.voice p).backlog
    simp only
    rw [bind_apply]
    rcases hrun : takeVoice block.voice p with ⟨outcome, p'⟩
    rw [hrun] at hchoice hbacklog
    cases outcome with
    | error fault => exact ⟨.inl hchoice, .inl hbacklog⟩
    | ok voice =>
      obtain ⟨hshown, htext⟩ := newTextblock_choice block.lines voice p'
      refine ⟨.inl (hshown.trans hchoice), ?_⟩
      unfold AddsText at htext
      rwa [show p'.backlog = p.backlog from hbacklog] at htext

/-! ## Turns -/

/-- An event token leaves the choice alone, or it stores its answer. Nothing comes into the
backlog. -/
theorem playEvent_choice (op : OpToken EventAction) (p : Player μ) :
    (playEvent op p).2.backlog = p.backlog ∧ ((playEvent op p).2.state.choice = p.state.choice ∨
      (∃ checkId, op.definition.action = .choiceStore checkId) ∧
        (playEvent op p).2.state.choice = none) := by
  by_cases hmoves : op.definition.action.moves = true
  · rcases (playEvent_goes hmoves p).offStage with hstage | ⟨position, tokens, hrun⟩
    · exact ⟨hstage.backlog, .inl hstage.choice⟩
    · rw [hrun]
      exact ⟨rfl, .inl rfl⟩
  · have hquiet : op.definition.action.moves = false := by simpa using hmoves
    refine ⟨(loadedLaws.effects.conversing.playEvent hquiet p).backlog, ?_⟩
    by_cases hstore : ∃ checkId, op.definition.action = .choiceStore checkId
    · exact (settlesLaws.playEvent hquiet p).imp_right fun hnone => ⟨hstore, hnone⟩
    · refine .inl (keepsChoiceLaws.playEvent hquiet (fun checkId haction => ?_) p)
      exact absurd ⟨checkId, haction⟩ hstore

omit [MediaSource μ] in
theorem choice_pastToken (q : Player μ) : q.pastToken.state.choice = q.state.choice := by
  obtain ⟨token, position, hpast⟩ := q.pastToken_cases
  rw [hpast]

omit [MediaSource μ] in
theorem backlog_pastToken (q : Player μ) : q.pastToken.backlog = q.backlog := by
  obtain ⟨token, position, hpast⟩ := q.pastToken_cases
  rw [hpast]

/-- A turn poses no choice if it shows text at most. -/
theorem poses?_of_addsText {q : Player μ} (h : AddsText q (advance q).2) : q.poses? = none := by
  unfold Player.poses?
  rcases h with hsame | ⟨lines, voice, s, hmore⟩
  · rw [hsame, List.getElem?_eq_none (Nat.le_refl _)]
  · rw [hmore, List.getElem?_concat_length]

theorem poses?_of_logged {q : Player μ} {choice : Choice} {s : PlayState}
    (h : (advance q).2.backlog = q.backlog ++ [⟨.choice choice, s⟩]) : q.poses? = some choice := by
  rw [Player.poses?, h, List.getElem?_concat_length]

/-- What a turn does about the choice. -/
inductive Deals (q q' : Player μ) : Prop where
  /-- Between conversations the choice stays, or its answer is stored. -/
  | stays (hidle : q.isIdle = true) (hoffer : q.offer? = none) (hposes : q.poses? = none)
      (hchoice : q'.state.choice = q.state.choice ∨ q.stores = true ∧ q'.state.choice = none)
  | talks (hidle : q.isIdle = false) (htoken : q.nextToken? ≠ none) (hposes : q.poses? = none)
      (hoffers : Offers q.offer? q.state.choice q'.state.choice)
  | poses {choice posed : Choice} (hends : q.EndsConversation) (hoffer : q.offer? = none)
      (hposes : q.poses? = some choice) (hchoice : q.state.choice = some choice)
      (hopen : choice.isAnswered = false) (hposed : q'.state.choice = some posed)
      (hsame : posed.unanswered = choice) (hidle : q'.state.conv = none)
  /-- No choice waits for an answer at the end of a conversation, or it is dropped because it
  displays nothing. -/
  | ends (hends : q.EndsConversation) (hoffer : q.offer? = none) (hposes : q.poses? = none)
      (hidle : q'.state.conv = none)
      (hchoice : q.state.choicePending = false ∧ q'.state.choice = q.state.choice ∨
        (∃ choice, q.state.choice = some choice ∧ choice.isAnswered = false ∧
          choice.options = []) ∧ q'.state.choice = none)

omit [MediaSource μ] in
theorem offer?_of_token {q : Player μ} {t : Token} (htoken : q.nextToken? = some t) :
    q.offer? = match t.kind with | .conv op => op.offer? q.pastToken.state | _ => none := by
  rw [Player.offer?, htoken, Option.bind_some]

omit [MediaSource μ] in
theorem offer?_of_none {q : Player μ} (htoken : q.nextToken? = none) : q.offer? = none := by
  rw [Player.offer?, htoken, Option.bind_none]

/-- A turn between conversations plays an event token, or one that cannot be played. -/
theorem Deals.event {q : Player μ} (hread : ReadEvents q) (hidle : q.isIdle = true) {t : Token}
    (htoken : q.nextToken? = some t) (hrun : advance q = playToken t q.pastToken) :
    Deals q (advance q).2 := by
  have hkept : ∀ {p : Player μ}, p.backlog = q.pastToken.backlog → AddsText q p :=
    fun h => .inl (h.trans (backlog_pastToken q))
  rcases hread.kind_of_nextToken? hidle htoken with ⟨op, hkind⟩ | ⟨view, hkind⟩
  · have hoffer : q.offer? = none := by rw [offer?_of_token htoken, hkind]
    have hplay : playToken t q.pastToken = playEvent op q.pastToken := by
      rw [playToken, hkind]
    obtain ⟨hbacklog, hchoice⟩ := playEvent_choice op q.pastToken
    rw [← hplay, ← hrun] at hbacklog hchoice
    rw [choice_pastToken] at hchoice
    refine .stays hidle hoffer (poses?_of_addsText (hkept hbacklog)) (hchoice.imp_right ?_)
    rintro ⟨⟨checkId, haction⟩, hnone⟩
    have hnext : q.nextAction? = some op.definition.action := Plans.of_token htoken hkind
    rw [haction] at hnext
    refine ⟨?_, hnone⟩
    rw [Player.stores, hnext, hnone]
    rfl
  · have hoffer : q.offer? = none := by rw [offer?_of_token htoken, hkind]
    have hplayed : (playToken t q.pastToken).2.state.choice = q.pastToken.state.choice ∧
        (playToken t q.pastToken).2.backlog = q.pastToken.backlog := by
      rw [playToken, hkind]
      exact ⟨keepsChoiceLaws.unplayable t q.pastToken,
        (loadedLaws.effects.unplayable t q.pastToken).backlog⟩
    rw [← hrun, choice_pastToken] at hplayed
    exact .stays hidle hoffer (poses?_of_addsText (hkept hplayed.2)) (.inl hplayed.1)

/-- Every turn deals with the choice in one of these ways. -/
theorem advance_deals {q : Player μ} (hfirst : PosesFirst q) : Deals q (advance q).2 := by
  have hturn := advance_turn q
  generalize hrun : advance q = run at hturn
  cases hturn with
  | @token t htoken =>
    rw [← hrun]
    cases hidle : q.isIdle with
    | true => exact .event hfirst.read hidle htoken hrun
    | false =>
      have hkind := hfirst.toLoaded.kind_of_nextToken? hidle htoken
      obtain ⟨hoffers, htext⟩ := playToken_offers hkind q.pastToken
      rw [← offer?_of_token htoken, choice_pastToken, ← hrun] at hoffers
      refine .talks hidle (by simp [htoken]) (poses?_of_addsText ?_) hoffers
      unfold AddsText at htext ⊢
      rwa [backlog_pastToken, ← hrun] at htext
  | chunk hidle htoken =>
    have hstage := OffStage.setEvent (q.state.chunk + 1) q
    rw [← hrun] at hstage ⊢
    exact .stays hidle (offer?_of_none htoken) (poses?_of_addsText (.inl hstage.backlog))
      (.inl hstage.choice)
  | poses htalks htoken hpending =>
    obtain ⟨choice, hchoice, hopen⟩ := PlayState.choicePending_iff.mp hpending
    have hoffer := offer?_of_none htoken
    have happly := poseChoice_apply (p := q.outOfConversation) hchoice
    rw [happly] at hrun ⊢
    by_cases hempty : choice.options.isEmpty = true
    · rw [if_pos hempty] at hrun ⊢
      have hbacklog : (advance q).2.backlog = q.backlog := by
        rw [hrun]
        rfl
      refine .ends ⟨htalks, htoken⟩ hoffer (poses?_of_addsText (.inl hbacklog)) rfl (.inr ⟨?_, rfl⟩)
      exact ⟨choice, hchoice, hopen, List.isEmpty_iff.mp hempty⟩
    · rw [if_neg hempty] at hrun ⊢
      have hlogged : (advance q).2.backlog = q.backlog ++
          [⟨.choice choice, { q.outOfConversation.state with status := .choice }⟩] := by
        rw [hrun]
        rfl
      have hsame := (q.recorder.pose_unanswered choice).trans (Choice.unanswered_of_open hopen)
      exact .poses ⟨htalks, htoken⟩ hoffer (poses?_of_logged hlogged) hchoice hopen rfl hsame rfl
  | ends htalks htoken hpending =>
    refine .ends ⟨htalks, htoken⟩ (offer?_of_none htoken) ?_ rfl (.inl ⟨hpending, rfl⟩)
    refine poses?_of_addsText (.inl ?_)
    rw [hrun]
    rfl

/-! ## What is remembered of a run -/

/-- A choice ends with the candidates that were offered; as long as it is unanswered, these are all
its candidates. -/
def Gathers (offers : List Offer) : Option Choice → Prop
  | none => offers = []
  | some choice => ∃ before : Choice, choice.unanswered = before.offering offers ∧
      (choice.isAnswered = false → ∃ id, before = .new id)

/-- A choice that is there gets what is offered, and stays answered or open. -/
theorem Offers.of_some {offer? : Option Offer} {choice : Choice} {after : Option Choice}
    (h : Offers offer? (some choice) after) : ∃ choice', after = some choice' ∧
      choice'.unanswered = choice.unanswered.offering offer?.toList ∧
        choice'.isAnswered = choice.isAnswered := by
  cases offer? with
  | none =>
    rcases h with hsame | ⟨hnone, _⟩
    · exact ⟨choice, hsame, rfl, rfl⟩
    · cases hnone
  | some offer => exact ⟨_, h, rfl, rfl⟩

theorem Gathers.offers {offers : List Offer} {offer? : Option Offer} {choice after : Option Choice}
    (h : Gathers offers choice) (hoffers : Offers offer? choice after) :
    Gathers (offers ++ offer?.toList) after := by
  cases choice with
  | none =>
    obtain rfl : offers = [] := h
    cases offer? with
    | none =>
      rcases hoffers with hsame | ⟨_, id, hopened⟩
      · rw [hsame]
        rfl
      · rw [hopened]
        exact ⟨.new id, rfl, fun _ => ⟨id, rfl⟩⟩
    | some offer =>
      rw [show after = _ from hoffers]
      exact ⟨.new none, rfl, fun _ => ⟨none, rfl⟩⟩
  | some choice =>
    obtain ⟨before, hgathered, hnew⟩ := h
    obtain ⟨choice', rfl, hmore, hanswered⟩ := hoffers.of_some
    refine ⟨before, ?_, fun hopen => hnew (hanswered ▸ hopen)⟩
    rw [hmore, hgathered, Choice.offering_append]

/-- Between conversations a choice that is left has been answered, so a conversation may offer more
to it. -/
theorem Gathers.nothing {choice : Option Choice} (h : ∀ c, choice = some c → c.isAnswered = true) :
    Gathers [] choice := by
  cases choice with
  | none => rfl
  | some choice =>
    refine ⟨choice.unanswered, rfl, fun hopen => ?_⟩
    rw [h choice rfl] at hopen
    cases hopen

/-- What is remembered agrees with the choice of the player: the posed choice is there, with what
was offered since, and the choice ends with what the conversation has offered. -/
structure Recalls (h : Inquiry) (p : Player μ) : Prop where
  first : PosesFirst p
  posed : ∀ posed, h.posed = some posed → ∃ choice, p.state.choice = some choice ∧
    choice.unanswered = posed.offering h.since ∧
      (choice.isAnswered = false → p.state.conv = none)
  gathers : p.state.conv ≠ none → Gathers h.offers p.state.choice

omit [MediaSource μ] in
theorem Loaded.position_of_idle {p : Player μ} (hp : Loaded p) (hidle : p.isIdle = true) :
    p.state.conv = none := by
  cases hposition : p.state.conv with
  | none => rfl
  | some position =>
    obtain ⟨tokens, htokens, _⟩ := hp.conv_eq_some hposition
    rw [Player.isIdle, htokens, hposition] at hidle
    cases hidle

namespace Recalls

variable {h : Inquiry} {q : Player μ}

omit [MediaSource μ] in
/-- When a token is played, a choice that was posed has been answered. -/
theorem answered (hrecalls : Recalls h q) (hrunning : q.state.status = .running) {posed : Choice}
    (hposed : h.posed = some posed) : ∃ choice, q.state.choice = some choice ∧
      choice.unanswered = posed.offering h.since ∧ choice.isAnswered = true := by
  obtain ⟨choice, hchoice, hsame, hidle⟩ := hrecalls.posed posed hposed
  refine ⟨choice, hchoice, hsame, ?_⟩
  cases hanswered : choice.isAnswered with
  | true => rfl
  | false =>
    have hpending := PlayState.choicePending_iff.mpr ⟨choice, hchoice, hanswered⟩
    have hwaits := (hrecalls.first.waits hpending (hidle hanswered)).1
    rw [hrunning] at hwaits
    cases hwaits

/-- The posed choice behind a turn. -/
theorem posed_turn (hrecalls : Recalls h q) (hrunning : q.state.status = .running)
    {p' : Player μ} (hdeals : Deals q p') {posed : Choice}
    (hposed : (h.remember q).posed = some posed) : ∃ choice, p'.state.choice = some choice ∧
      choice.unanswered = posed.offering (h.remember q).since ∧
        (choice.isAnswered = false → p'.state.conv = none) := by
  unfold Inquiry.remember at hposed ⊢
  simp only at hposed ⊢
  cases hstores : q.stores with
  | true =>
    rw [if_pos hstores] at hposed
    cases hposed
  | false =>
    rw [hstores, if_neg Bool.false_ne_true] at hposed
    cases hdeals with
    | stays hidle hoffer hposes hchoice =>
      rw [hposes, Option.none_or] at hposed
      obtain ⟨choice, hq, hsame, hanswered⟩ := hrecalls.answered hrunning hposed
      have hkept : p'.state.choice = q.state.choice := by
        rcases hchoice with hkept | ⟨hstored, _⟩
        · exact hkept
        · rw [hstores] at hstored
          cases hstored
      refine ⟨choice, hkept.trans hq, ?_, ?_⟩
      · rw [hposes, hoffer]
        simpa using hsame
      · intro hopen
        rw [hanswered] at hopen
        cases hopen
    | talks hidle htoken hposes hoffers =>
      rw [hposes, Option.none_or] at hposed
      obtain ⟨choice, hq, hsame, hanswered⟩ := hrecalls.answered hrunning hposed
      rw [hq] at hoffers
      obtain ⟨choice', hafter, hmore, hstill⟩ := hoffers.of_some
      refine ⟨choice', hafter, ?_, ?_⟩
      · rw [hposes, if_neg (by simp), hmore, hsame, Choice.offering_append]
      · intro hopen
        rw [hstill, hanswered] at hopen
        cases hopen
    | poses hends hoffer hposes hchoice hopen hposed' hsame hidle =>
      rw [hposes, Option.some_or] at hposed
      obtain rfl := Option.some.inj hposed
      refine ⟨_, hposed', ?_, fun _ => hidle⟩
      rw [hposes]
      exact hsame
    | ends hends hoffer hposes hidle hchoice =>
      rw [hposes, Option.none_or] at hposed
      obtain ⟨choice, hq, hsame, hanswered⟩ := hrecalls.answered hrunning hposed
      rcases hchoice with ⟨_, hkept⟩ | ⟨⟨dropped, hdropped, hopen, _⟩, _⟩
      · refine ⟨choice, hkept.trans hq, ?_, fun _ => hidle⟩
        rw [hposes, hoffer]
        simpa using hsame
      · obtain rfl := Option.some.inj (hq.symm.trans hdropped)
        rw [hanswered] at hopen
        cases hopen

/-- What the conversation has offered behind a turn. -/
theorem gathers_turn (hrecalls : Recalls h q) (hrunning : q.state.status = .running)
    {p' : Player μ} (hdeals : Deals q p') (htalks : p'.state.conv ≠ none) :
    Gathers (h.remember q).offers p'.state.choice := by
  unfold Inquiry.remember
  simp only
  cases hdeals with
  | stays hidle hoffer hposes hchoice =>
    rw [if_pos hidle]
    have hposition := hrecalls.first.toLoaded.position_of_idle hidle
    refine .nothing fun choice hafter => ?_
    rcases hchoice with hkept | ⟨_, hnone⟩
    · cases hanswered : choice.isAnswered with
      | true => rfl
      | false =>
        have hpending := PlayState.choicePending_iff.mpr ⟨choice, hkept ▸ hafter, hanswered⟩
        exact absurd hposition ((hrecalls.first.unposed hrunning).settled hpending)
    · rw [hnone] at hafter
      cases hafter
  | talks hidle htoken hposes hoffers =>
    obtain ⟨tokens, position, _, hposition⟩ := Player.isIdle_eq_false hidle
    have hgathers := hrecalls.gathers (by simp [hposition])
    rw [if_neg (by simp [hidle])]
    exact hgathers.offers hoffers
  | poses _ _ _ _ _ _ _ hidle => exact absurd hidle htalks
  | ends _ _ _ hidle _ => exact absurd hidle htalks

/-- A turn is remembered. -/
theorem turn (hrecalls : Recalls h q) (hrunning : q.state.status = .running) :
    Recalls (h.remember q) (advance q).2 where
  first := hrecalls.first.advance hrunning
  posed _ hposed := hrecalls.posed_turn hrunning (advance_deals hrecalls.first) hposed
  gathers := hrecalls.gathers_turn hrunning (advance_deals hrecalls.first)

end Recalls

/-- What is remembered agrees with the choice along every run. -/
theorem recallsLaws : HistoryLaws (μ := μ) Inquiry.remember Recalls where
  begins h hallowed := ⟨posesFirstLaws.begins h.first hallowed, h.posed, h.gathers⟩
  plays h hrunning _ := h.turn hrunning
  skips h hrunning _ _ := h.turn hrunning
  stops h hrunning hfault :=
    have hturn := h.turn hrunning
    ⟨posesFirstLaws.stops h.first hrunning hfault, hturn.posed, hturn.gathers⟩
  choose index h p hrecalls := by
    have hfirst := posesFirstLaws.choose index p hrecalls.first
    rcases choose_answers index p with hsame | ⟨choice, answered, hchoice, hchoose, hrun⟩
    · rwa [hsame]
    · have hunanswered := Choice.unanswered_of_choose hchoose
      have hanswered := Choice.isAnswered_of_choose hchoose
      rw [hrun] at hfirst ⊢
      refine ⟨hfirst, ?_, ?_⟩
      · intro posed hposed
        obtain ⟨choice', hchoice', hsame, _⟩ := hrecalls.posed posed hposed
        obtain rfl := Option.some.inj (hchoice.symm.trans hchoice')
        refine ⟨answered, rfl, hunanswered.trans hsame, fun hopen => ?_⟩
        rw [hanswered] at hopen
        cases hopen
      · intro htalks
        have hgathers := hrecalls.gathers htalks
        rw [hchoice] at hgathers
        obtain ⟨before, hsame, _⟩ := hgathers
        refine ⟨before, hunanswered.trans hsame, fun hopen => ?_⟩
        rw [hanswered] at hopen
        cases hopen

/-! ## Posed choices -/

theorem Recalls.new {media : μ} {recorder : Recorder} {options : RuntimeOptions}
    {p : Player μ} (h : (Player.new media recorder options).1 = .ok p) : Recalls .nothing p where
  first := .new h
  posed _ hposed := by cases hposed
  gathers htalks := by
    obtain ⟨_, _, _, hstate⟩ := new_spec h
    rw [hstate] at htalks
    exact absurd rfl htalks

omit [MediaSource μ] in
/-- The posed choice shows what was offered since. -/
theorem Recalls.posed_same_iff {h : Inquiry} {p : Player μ} (hrecalls : Recalls h p)
    {posed : Choice} (hposed : h.posed = some posed) : ∃ choice, p.state.choice = some choice ∧
      (choice.options = posed.options ∧ choice.candidates = posed.candidates ↔ h.since = []) := by
  obtain ⟨choice, hchoice, hsame, _⟩ := hrecalls.posed posed hposed
  refine ⟨choice, hchoice, ?_⟩
  have hiff := posed.offering_same_iff h.since
  rw [← hsame] at hiff
  exact hiff

/-- The end of a conversation that displays options poses them if they wait for an answer. -/
theorem Recalls.poses_iff {h : Inquiry} {q : Player μ} (hrecalls : Recalls h q)
    (hends : q.EndsConversation) (hshown : h.offers.any Offer.shown = true) :
    (∃ id, q.poses? = some ((Choice.new id).offering h.offers)) ↔
      q.state.choicePending = true := by
  obtain ⟨tokens, position, _, hposition⟩ := Player.isIdle_eq_false hends.1
  have hgathers := hrecalls.gathers (by simp [hposition])
  cases advance_deals hrecalls.first with
  | stays hidle => exact absurd (hidle.symm.trans hends.1) (by decide)
  | talks _ htoken => exact absurd hends.2 htoken
  | @poses choice _ _ _ hposes hchoice hopen =>
    rw [hchoice] at hgathers
    obtain ⟨before, hsame, hnew⟩ := hgathers
    obtain ⟨id, rfl⟩ := hnew hopen
    rw [Choice.unanswered_of_open hopen] at hsame
    have hpending := PlayState.choicePending_iff.mpr ⟨choice, hchoice, hopen⟩
    exact iff_of_true ⟨id, hposes.trans (congrArg some hsame)⟩ hpending
  | ends _ _ hposes _ hchoice =>
    have hsilent : ¬ ∃ id, q.poses? = some ((Choice.new id).offering h.offers) := by
      rintro ⟨id, hposed⟩
      rw [hposes] at hposed
      cases hposed
    refine iff_of_false hsilent ?_
    rcases hchoice with ⟨hsettled, _⟩ | ⟨⟨choice, hchoice, _, hempty⟩, _⟩
    · rw [hsettled]
      exact Bool.false_ne_true
    · -- a choice that displays nothing was offered nothing that is displayed
      rw [hchoice] at hgathers
      obtain ⟨before, hsame, _⟩ := hgathers
      have hoptions := before.options_offering_ne_nil hshown
      rw [← hsame] at hoptions
      exact absurd hempty hoptions

/-- Whatever a run does between, a posed choice is there until its answer is stored, and it has the
options and candidates that it was posed with if and only if no token has offered more to it since.
A conversation that has offered options to be displayed poses at its end a choice of just what it
has offered if and only if no answer was given before. -/
theorem posed_choice_kept_iff {media : μ} {recorder : Recorder} {options : RuntimeOptions}
    {start : Player μ} (hnew : (Player.new media recorder options).1 = .ok start)
    {calls : List Call} (hcalls : calls.all Call.goesOn = true) :
    (∀ posed, (start.inquiry calls).posed = some posed →
      ∃ choice, (start.after calls).state.choice = some choice ∧
        (choice.options = posed.options ∧ choice.candidates = posed.candidates ↔
          (start.inquiry calls).since = [])) ∧
    ∀ h q, (h, q) ∈ remembering Inquiry.remember .nothing (start.turns calls) →
      q.EndsConversation → h.offers.any Offer.shown = true →
        ((∃ id, q.poses? = some ((Choice.new id).offering h.offers)) ↔
          q.state.choicePending = true) := by
  have hback : ∀ index, .jumpBack index ∈ calls → ∀ h,
      Keeps (Recalls (μ := μ) h) (jumpBack index) :=
    fun index hindex => absurd hindex (Call.jumpBack_not_mem hcalls index)
  obtain ⟨hturns, hafter⟩ := recallsLaws.after hback (.new hnew)
  refine ⟨fun posed hposed => hafter.posed_same_iff hposed, ?_⟩
  intro h q hturn hends hshown
  exact (hturns (h, q) hturn).1.poses_iff hends hshown

/-- A question with the option A is answered as it is posed, and its answer is not stored. The next
conversation offers B: the choice that was posed gets one more option, and B is never posed. -/
theorem posed_choice_extended :
    let media := FixedMedia.onlyScript "op00" [0x53, 0x43, 0x33, 0x00, 24, 0, 0, 0, 32, 0, 0, 0,
      16, 0, 0, 0, 0xff, 0, 0, 0xff, 1, 0, 0, 0x06, 32, 0, 0, 0, 40, 0, 0, 0,
      0x0b, 0, 5, 0, 0x0b, 1, 0x41, 1, 0x0b, 1, 0x42, 1, 2]
    ∃ start, (Player.new media (.new .first) .default).1 = .ok start ∧
      (∃ posed choice, (start.inquiry [.process 9, .process 9]).posed = some posed ∧
        (start.after [.process 9, .process 9]).state.choice = some choice ∧
          ¬ (choice.options = posed.options ∧ choice.candidates = posed.candidates)) ∧
      ∃ h q, (h, q) ∈ remembering Inquiry.remember .nothing
          (start.turns [.process 9, .process 9, .process 9]) ∧
        q.EndsConversation ∧ h.offers = [⟨"B", true⟩] ∧
          ¬ ∃ id, q.poses? = some ((Choice.new id).offering h.offers) := by
  intro media
  obtain ⟨start, hstart, ⟨posed, hposed, hsince⟩, ⟨h, q⟩, hturn, hends, hoffers, hanswered⟩ :
      ∃ start ∈ (Player.new media (.new .first) .default).1.toOption,
        (∃ posed ∈ (start.inquiry [.process 9, .process 9]).posed,
          (start.inquiry [.process 9, .process 9]).since = [⟨"B", true⟩]) ∧
        ∃ x ∈ remembering Inquiry.remember .nothing
            (start.turns [.process 9, .process 9, .process 9]),
          x.2.EndsConversation ∧ x.1.offers = [⟨"B", true⟩] ∧ x.2.state.choicePending = false := by
    decide +kernel
  have hnew := ok_of_toOption hstart
  refine ⟨start, hnew, ?_, h, q, hturn, hends, hoffers, ?_⟩
  · have hcalls : [Call.process 9, .process 9].all Call.goesOn = true := by decide
    obtain ⟨hkept, _⟩ := posed_choice_kept_iff hnew hcalls
    obtain ⟨choice, hchoice, hiff⟩ := hkept posed hposed
    refine ⟨posed, choice, hposed, hchoice, fun hsame => ?_⟩
    rw [hiff.mp hsame] at hsince
    cases hsince
  · have hcalls : [Call.process 9, .process 9, .process 9].all Call.goesOn = true := by decide
    obtain ⟨_, hposes⟩ := posed_choice_kept_iff hnew hcalls
    have hshown : h.offers.any Offer.shown = true := by
      rw [show h.offers = [⟨"B", true⟩] from hoffers]
      rfl
    rw [hposes h q hturn hends hshown, show q.state.choicePending = false from hanswered]
    exact Bool.false_ne_true

end Play

end NovelScript
