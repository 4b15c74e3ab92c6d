import NovelScript.Proofs.Play.Resume
import NovelScript.Proofs.Play.Turns

/-! # The saved position

A call of a chunk or of a script saves the place behind its token, and there is only one such place
at a time. Whatever is played, and whether it succeeds or fails, the saved position is kept until a
return takes the player back to it. -/

namespace NovelScript

namespace Play

variable {μ : Type} [MediaSource μ]

/-- The turn plays a return, and the return succeeds. -/
def Returns (q : Player μ) : Prop := Plans .return q ∧ (advance q).1 = .ok ()

/-- What a turn does to the position that is saved when it begins. -/
inductive Frames (q : Player μ) (f : CallFrame) : Except Fault Unit × Player μ → Prop where
  | keeps {run : Except Fault Unit × Player μ} (hother : Plans .return q → run.1 ≠ .ok ())
      (hframe : run.2.state.callFrame = some f) : Frames q f run
  | takes {run : Except Fault Unit × Player μ} (hreturn : Plans .return q) (hok : run.1 = .ok ())
      (hhere : run.2.state.here = f) (hframe : run.2.state.callFrame = none) : Frames q f run

omit [MediaSource μ] in
/-- A token that goes somewhere while a position is saved makes no call. -/
theorem Goes.frames {q : Player μ} {t : Token} {op : OpToken EventAction}
    (htoken : q.nextToken? = some t) (hkind : t.kind = .event op) {p : Player μ} {f : CallFrame}
    (hframe : p.state.callFrame = some f) {run : Except Fault Unit × Player μ}
    (h : Goes op p run) : Frames q f run := by
  have hother : ∀ {action : EventAction}, op.definition.action = action → action ≠ .return →
      Plans .return q → run.1 ≠ .ok () := by
    intro action haction hne hplans
    exact absurd (haction.symm.trans (hplans.unique htoken hkind)) hne
  cases h with
  | stays hstage hunmoved hpasses =>
    refine .keeps (fun hplans hok => ?_) (hunmoved.frame.trans hframe)
    rcases hpasses hok with haction | haction
    · exact hother haction (by decide) hplans hok
    · exact hother haction (by decide) hplans hok
  | savesOnly haction hnone hstage hunmoved =>
    rw [hframe] at hnone
    cases hnone
  | jumps haction htarget hscript harrived =>
    refine .keeps (fun hplans => ?_) (harrived.frame.trans hframe)
    rcases haction with haction | haction | haction
    · exact hother haction (by decide) hplans
    · exact hother haction (by decide) hplans
    · exact hother haction (by decide) hplans
  | calls haction hnone htarget hscript harrived =>
    rw [hframe] at hnone
    cases hnone
  | returns haction hsaved harrived =>
    obtain rfl := Option.some.inj (hframe.symm.trans hsaved)
    have hplans := Plans.of_token htoken hkind
    rw [haction] at hplans
    exact .takes hplans rfl harrived.here rfl
  | switches haction harrived =>
    exact .keeps (hother haction (by decide)) (harrived.frame.trans hframe)
  | callsFile haction hnone harrived =>
    rw [hframe] at hnone
    cases hnone
  | converses haction hidle => exact .keeps (hother haction (by decide)) hframe

/-- A turn keeps the saved position, or plays a return that succeeds. -/
theorem advance_frames {q : Player μ} {f : CallFrame} (hframe : q.state.callFrame = some f) :
    Frames q f (advance q) := by
  have hnone : q.nextToken? = none → ∀ {run : Except Fault Unit × Player μ},
      Plans .return q → run.1 ≠ .ok () := by
    intro hnone run hplans
    obtain ⟨t, op, htoken, _⟩ := hplans.token
    rw [hnone] at htoken
    cases htoken
  have hturn := advance_turn q
  generalize advance q = run at hturn ⊢
  cases hturn with
  | @token t htoken =>
    have hpast : q.pastToken.state.callFrame = some f := by
      obtain ⟨token, position, hpast⟩ := q.pastToken_cases
      rw [hpast]
      exact hframe
    rcases playToken_cases t q.pastToken with ⟨hunmoved, hquiet⟩ | ⟨op, hkind, hgoes⟩
    · refine .keeps (fun hplans _ => ?_) (hunmoved.frame.trans hpast)
      obtain ⟨t', op, htoken', hkind, haction⟩ := hplans.token
      obtain rfl := Option.some.inj (htoken.symm.trans htoken')
      have hmoves := hquiet op hkind
      rw [haction] at hmoves
      cases hmoves
    · exact hgoes.frames htoken hkind hpast
  | chunk hidle htoken =>
    refine .keeps (hnone htoken) ?_
    have henters := setEvent_enters (q.state.chunk + 1) q
    generalize setEvent (q.state.chunk + 1) q = run at henters ⊢
    cases henters with
    | fails hstage hunmoved => exact hunmoved.frame.trans hframe
    | arrives harrived => exact harrived.frame.trans hframe
  | poses htalks htoken hpending =>
    exact .keeps (hnone htoken) ((Stationary.poseChoice q.outOfConversation).frame.trans hframe)
  | ends htalks htoken hpending => exact .keeps (hnone htoken) hframe

theorem Frames.kept {q : Player μ} {f : CallFrame} (h : Frames q f (advance q))
    (hreturns : ¬ Returns q) : (advance q).2.state.callFrame = some f := by
  cases h with
  | keeps hother hframe => exact hframe
  | takes hreturn hok hhere hframe => exact absurd ⟨hreturn, hok⟩ hreturns

/-- Calls that go on keep the saved position up to a return that succeeds. -/
theorem frameLaws (f : CallFrame) :
    RunLaws (μ := μ) Returns fun p => p.state.callFrame = some f where
  begins h _ := h
  plays h _ hreturns _ := (advance_frames h).kept hreturns
  skips h _ hfault _ := by
    refine (advance_frames h).kept fun hreturns => ?_
    rw [hreturns.2] at hfault
    cases hfault
  stops h _ hfault := by
    refine (advance_frames h).kept fun hreturns => ?_
    rw [hreturns.2] at hfault
    cases hfault
  choose index p h := by
    obtain ⟨choice, hchoice⟩ := choose_snd index p
    rw [hchoice]
    exact h

/-- A call of a chunk or of a script that succeeds has saved the place behind its token. -/
theorem advance_saves {q : Player μ} (hidle : q.isIdle = true)
    (hcall : Plans .returnableJump q ∨ Plans .returnableFileJump q)
    (hok : (advance q).1 = .ok ()) :
    (advance q).2.state.callFrame =
      some ⟨q.state.script, q.state.chunk, q.state.token + 1⟩ := by
  have hpast := Player.pastToken_of_idle hidle
  obtain ⟨t, op, htoken, hkind, haction⟩ : ∃ t op, q.nextToken? = some t ∧ t.kind = .event op ∧
      (op.definition.action = .returnableJump ∨ op.definition.action = .returnableFileJump) := by
    rcases hcall with hcall | hcall
    · obtain ⟨t, op, htoken, hkind, haction⟩ := hcall.token
      exact ⟨t, op, htoken, hkind, .inl haction⟩
    · obtain ⟨t, op, htoken, hkind, haction⟩ := hcall.token
      exact ⟨t, op, htoken, hkind, .inr haction⟩
  have hturn := advance_turn q
  generalize advance q = run at hturn hok ⊢
  cases hturn with
  | @token t' htoken' =>
    obtain rfl := Option.some.inj (htoken.symm.trans htoken')
    have hmoves : op.definition.action.moves = true := by
      rcases haction with haction | haction
      · rw [haction]
        rfl
      · rw [haction]
        rfl
    have hgoes := playEvent_goes hmoves q.pastToken
    have hsaved : q.pastToken.saved.state.callFrame =
        some ⟨q.state.script, q.state.chunk, q.state.token + 1⟩ := by
      rw [hpast]
      rfl
    simp only [playToken, hkind] at hok ⊢
    generalize playEvent op q.pastToken = run at hgoes hok ⊢
    cases hgoes with
    | calls haction hframe htarget hscript harrived => exact harrived.frame.trans hsaved
    | callsFile haction hframe harrived => exact harrived.frame.trans hsaved
    | stays hstage hunmoved hpasses =>
      rcases hpasses hok with hother | hother
      · simp [hother] at haction
      · simp [hother] at haction
    | savesOnly haction hframe hstage hunmoved => cases hok
    | jumps hother htarget hscript harrived =>
      rcases hother with hother | hother | hother
      · simp [hother] at haction
      · simp [hother] at haction
      · simp [hother] at haction
    | returns hother hframe harrived => simp [hother] at haction
    | switches hother harrived => simp [hother] at haction
    | converses hother hidle => simp [hother] at haction
  | chunk _ hnone =>
    rw [htoken] at hnone
    cases hnone
  | poses _ hnone _ =>
    rw [htoken] at hnone
    cases hnone
  | ends _ hnone _ =>
    rw [htoken] at hnone
    cases hnone

/-- The saved position is kept until it is returned to: at every turn of calls that go on, up to the
first return that succeeds, it is the one that was saved, and the turn leaves it as it is or returns
to it and forgets it. And every call of a chunk or of a script that succeeds has saved the place
behind its token, whatever player plays it. -/
theorem savedPosition_kept {start : Player μ} {f : CallFrame}
    (hframe : start.state.callFrame = some f) {calls : List Call}
    (hcalls : calls.all Call.goesOn = true) :
    HoldsUntil Returns
      (fun q => q.state.callFrame = some f ∧
        (¬ Returns q → (advance q).2.state.callFrame = some f) ∧
        (Returns q → (advance q).2.state.here = f ∧ (advance q).2.state.callFrame = none))
      (start.turns calls) ∧
    ((∀ q ∈ start.turns calls, ¬ Returns q) → (start.after calls).state.callFrame = some f) ∧
    ∀ q : Player μ, q.isIdle = true → Plans .returnableJump q ∨ Plans .returnableFileJump q →
      (advance q).1 = .ok () → (advance q).2.state.callFrame =
        some ⟨q.state.script, q.state.chunk, q.state.token + 1⟩ := by
  have hback : ∀ index, .jumpBack index ∈ calls →
      Keeps (fun p => p.state.callFrame = some f) (jumpBack (μ := μ) index) :=
    fun index hindex => absurd hindex (Call.jumpBack_not_mem hcalls index)
  obtain ⟨hturns, hafter⟩ := (frameLaws f).after hback hframe
  refine ⟨hturns.mono fun q hq => ⟨hq.1, fun hreturns => ?_, fun hreturns => ?_⟩, hafter,
    fun q => advance_saves⟩
  · exact (advance_frames hq.1).kept hreturns
  · cases advance_frames hq.1 with
    | keeps hother hkept => exact absurd hreturns.2 (hother hreturns.1)
    | takes hreturn hok hhere hnone => exact ⟨hhere, hnone⟩

/-- A chunk that was called fades the textbox out and returns behind the call. -/
theorem savedPosition_kept_over_fade :
    let media := FixedMedia.onlyScript "op00" [0x53, 0x43, 0x33, 0x00, 28, 0, 0, 0, 28, 0, 0, 0,
      20, 0, 0, 0, 24, 0, 0, 0, 0x00, 0x0b, 1, 0, 0x10, 0x18, 0x00, 0x0e]
    ∃ start, (Player.new media (.new .first) .default).1 = .ok start ∧
      let called := start.after [.process 9]
      called.state.callFrame = some ⟨"op00", 0, 1⟩ ∧ called.turns [.process 9] ≠ [] ∧
        HoldsUntil Returns
          (fun q => q.state.callFrame = some ⟨"op00", 0, 1⟩ ∧
            (¬ Returns q → (advance q).2.state.callFrame = some ⟨"op00", 0, 1⟩) ∧
            (Returns q → (advance q).2.state.here = ⟨"op00", 0, 1⟩ ∧
              (advance q).2.state.callFrame = none))
          (called.turns [.process 9]) := by
  intro media
  obtain ⟨start, hstart, hframe, hturns⟩ :
      ∃ start ∈ (Player.new media (.new .first) .default).1.toOption,
        (start.after [.process 9]).state.callFrame = some ⟨"op00", 0, 1⟩ ∧
        ((start.after [.process 9]).turns [.process 9]).isEmpty = false := by
    decide +kernel
  refine ⟨start, ok_of_toOption hstart, hframe, ?_, ?_⟩
  · intro hnone
    rw [hnone] at hturns
    cases hturns
  · have hgoesOn : [Call.process 9].all Call.goesOn = true := by decide
    exact (savedPosition_kept hframe hgoesOn).1

/-! ## Calls that fail -/

omit [MediaSource μ] in
/-- A call of a chunk saves the position, and cannot go on: its operands name no chunk, or the chunk
cannot be read. -/
structure Strands (op : OpToken EventAction) (p : Player μ) : Prop where
  action : op.definition.action = .returnableJump
  frame : p.state.callFrame = none
  target : ∀ chunk, op.jumpTarget? = some chunk →
    ∃ fault, (p.script.tokenizeEvent p.dataChunks chunk false).result = .error fault

/-- A call that strands a player fails, and its position stays saved. -/
theorem Strands.failure {op : OpToken EventAction} {p : Player μ} (h : Strands op p) :
    ∃ fault, (playEvent op p).1 = .error fault ∧
      (playEvent op p).2.state.callFrame = some p.state.here := by
  have hcall : playEvent op p = jump op p.saved := by
    simp only [playEvent, h.action]
    rw [bind_apply, pushPosition_apply, h.frame]
  rw [hcall, jump]
  cases htarget : op.jumpTarget? with
  | none => exact ⟨_, rfl, rfl⟩
  | some chunk =>
    obtain ⟨fault, hfault⟩ := h.target chunk htarget
    have hsaved : (p.saved.script.tokenizeEvent p.saved.dataChunks chunk false).result =
        .error fault := hfault
    simp only
    rw [setEvent, bind_apply]
    simp only [state]
    rw [enterCurrent_apply]
    simp only [hsaved]
    exact ⟨fault, rfl, rfl⟩

/-- A call that is not stranded either fails before it saves the position, or succeeds. -/
theorem callFrame_of_not_strands {op : OpToken EventAction} {p : Player μ}
    (haction : op.definition.action = .returnableJump) (h : ¬ Strands op p) {fault : Fault}
    (hfault : (playEvent op p).1 = .error fault) :
    (playEvent op p).2.state.callFrame = p.state.callFrame := by
  have hcall : playEvent op p = (pushPosition >>= fun _ => jump op) p := by
    simp only [playEvent, haction]
  rw [hcall, bind_apply, pushPosition_apply] at hfault ⊢
  cases hframe : p.state.callFrame with
  | some frame =>
    simp only [hframe]
  | none =>
    simp only [hframe] at hfault ⊢
    refine absurd ⟨haction, hframe, fun chunk htarget => ?_⟩ h
    rw [jump, htarget] at hfault
    simp only at hfault
    rw [setEvent, bind_apply] at hfault
    simp only [state] at hfault
    rw [enterCurrent_apply] at hfault
    have hsaved : p.saved.script.tokenizeEvent p.saved.dataChunks chunk false =
        p.script.tokenizeEvent p.dataChunks chunk false := rfl
    rw [hsaved] at hfault
    cases hresult : (p.script.tokenizeEvent p.dataChunks chunk false).result with
    | error fault => exact ⟨fault, rfl⟩
    | ok events =>
      simp only [hresult] at hfault
      cases hfault

/-- An event token that fails leaves the saved position as it found it, unless it is a call of a
chunk that strands the player. That one leaves its own position behind, and every other call, also
one of another script, takes back what it has saved. -/
theorem failed_token_keeps_frame_iff (op : OpToken EventAction) (p : Player μ) :
    ((∀ fault, (playEvent op p).1 = .error fault →
        (playEvent op p).2.state.callFrame = p.state.callFrame) ↔ ¬ Strands op p) ∧
      (Strands op p → ∃ fault, (playEvent op p).1 = .error fault ∧
        (playEvent op p).2.state.callFrame = some p.state.here) := by
  refine ⟨⟨fun hkeeps hstrands => ?_, fun hstrands fault hfault => ?_⟩, Strands.failure⟩
  · obtain ⟨fault, hfault, hframe⟩ := hstrands.failure
    have hkept := hkeeps fault hfault
    rw [hframe, hstrands.frame] at hkept
    cases hkept
  · by_cases haction : op.definition.action = .returnableJump
    · exact callFrame_of_not_strands haction hstrands hfault
    cases hmoves : op.definition.action.moves with
    | false => exact (stationaryLaws.playEvent hmoves p).frame
    | true =>
      have hgoes := playEvent_goes hmoves p
      generalize playEvent op p = run at hgoes hfault ⊢
      cases hgoes with
      | stays hstage hunmoved hpasses => exact hunmoved.frame
      | savesOnly hcall hframe hstage hunmoved => exact absurd hcall haction
      | jumps | calls | returns | switches | callsFile | converses => cases hfault

/-- A chunk is called whose only byte is no opcode. -/
theorem failed_token_keeps_frame_iff_unreadable :
    let media := FixedMedia.onlyScript "op00" [0x53, 0x43, 0x33, 0x00, 25, 0, 0, 0, 25, 0, 0, 0,
      20, 0, 0, 0, 24, 0, 0, 0, 0x00, 0x0b, 1, 0, 0x77]
    ∃ start op, (Player.new media (.new .first) .default).1 = .ok start ∧
      start.nextEvent? = some op ∧ start.pastToken.state.callFrame = none ∧
      ∃ fault, (playEvent op start.pastToken).1 = .error fault ∧
        (playEvent op start.pastToken).2.state.callFrame = some ⟨"op00", 0, 1⟩ := by
  intro media
  obtain ⟨start, hstart, op, hop, hhere, hframe, haction, htarget, hunreadable⟩ :
      ∃ start ∈ (Player.new media (.new .first) .default).1.toOption, ∃ op ∈ start.nextEvent?,
        start.pastToken.state.here = ⟨"op00", 0, 1⟩ ∧ start.pastToken.state.callFrame = none ∧
          op.definition.action = .returnableJump ∧ op.jumpTarget? = some 1 ∧
          (faultOf? (start.pastToken.script.tokenizeEvent start.pastToken.dataChunks 1
            false).result).isSome := by
    decide +kernel
  have hstrands : Strands op start.pastToken := by
    refine ⟨haction, hframe, fun chunk hchunk => ?_⟩
    obtain rfl := Option.some.inj (htarget.symm.trans hchunk)
    obtain ⟨fault, hfault⟩ := Option.isSome_iff_exists.mp hunreadable
    exact ⟨fault, error_of_faultOf? hfault⟩
  obtain ⟨fault, hfault, hleft⟩ := (failed_token_keeps_frame_iff op start.pastToken).2 hstrands
  rw [hhere] at hleft
  exact ⟨start, op, ok_of_toOption hstart, hop, hframe, fault, hfault, hleft⟩

end Play

end NovelScript
