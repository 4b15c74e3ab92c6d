import NovelScript.Proofs.Play.Telling
import NovelScript.Proofs.Play.Turns

/-! # What a failure leaves behind

A call to play on that is refused changes nothing. One that fails at a token leaves the player one
token further on and otherwise where the token was read, so that a player that goes on neither plays
a token twice nor leaves one out. A lenient player skips whatever a token cannot act on, so it never
fails for such a reason. -/

namespace NovelScript

/-! ## Media -/

/-- A source of media that tells no places. -/
def MediaSource.TellsNoPlace (μ : Type) [MediaSource μ] : Prop :=
  ∀ (media : μ) kind name, Unplaced (MediaSource.load media kind name).1

theorem FixedMedia.tellsNoPlace : MediaSource.TellsNoPlace FixedMedia :=
  fun media kind name => (media.offToken_load kind name).unplaced

theorem MediaLibrary.tellsNoPlace : MediaSource.TellsNoPlace MediaLibrary :=
  fun library kind name => (library.offToken_load kind name).unplaced

namespace Play

variable {μ : Type} [MediaSource μ]

/-- No turn fails with a place around its fault. -/
theorem unplaced_advance (hmedia : MediaSource.TellsNoPlace μ) (p : Player μ) :
    Unplaced (advance p).1 := by
  have hadmits : Admits μ fun fault => fault.isPlaced = false := ⟨fun _ h => h.1, hmedia⟩
  have hanswers (t : Token) : t.Answers fun fault => fault.isPlaced = false :=
    t.answers_ofOperands fun _ => Fault.isPlaced_of_isOfOperands
  have hturn := advance_turn p
  generalize advance p = run at hturn ⊢
  cases hturn with
  | token htoken => exact hadmits.playToken (hanswers _) _
  | chunk hidle htoken => exact OffToken.unplaced (offToken_setEvent _ p)
  | poses htalks htoken hpending => exact OffToken.unplaced (offToken_poseChoice _)
  | ends htalks htoken hpending => trivial

/-! ## Where a failed turn leaves the player -/

/-- Where a player is left by a turn that fails: one token further on, or in front of an event chunk
that cannot be entered, or behind a conversation whose choice cannot be posed. -/
structure LeftBehind (q p : Player μ) : Prop where
  token : ∀ t, q.nextToken? = some t → p.standing = q.pastToken.standing
  chunk : q.nextToken? = none → q.isIdle = true → p.standing = q.standing
  conv : q.nextToken? = none → q.isIdle = false → p.standing = q.outOfConversation.standing

omit [MediaSource μ] in
theorem Goes.standing_of_error {op : OpToken EventAction} {p : Player μ}
    {run : Except Fault Unit × Player μ} (h : Goes op p run) {fault : Fault}
    (hfault : run.1 = .error fault) : run.2.standing = p.standing := by
  cases h with
  | stays hstage hunmoved hpasses => exact hunmoved.standing
  | savesOnly haction hframe hstage hunmoved => exact hunmoved.standing
  | _ => cases hfault

theorem advance_leftBehind {q : Player μ} {fault : Fault} (h : (advance q).1 = .error fault) :
    LeftBehind q (advance q).2 := by
  have hturn := advance_turn q
  generalize advance q = run at hturn h ⊢
  cases hturn with
  | @token t htoken =>
    refine ⟨fun _ _ => ?_, fun hnone => ?_, fun hnone => ?_⟩
    · rcases playToken_cases t q.pastToken with ⟨hunmoved, _⟩ | ⟨op, _, hgoes⟩
      · exact hunmoved.standing
      · exact hgoes.standing_of_error h
    · rw [htoken] at hnone
      cases hnone
    · rw [htoken] at hnone
      cases hnone
  | chunk hidle htoken =>
    refine ⟨fun _ hsome => ?_, fun _ _ => ?_, fun _ htalks => ?_⟩
    · rw [htoken] at hsome
      cases hsome
    · have henters := setEvent_enters (q.state.chunk + 1) q
      generalize setEvent (q.state.chunk + 1) q = run at henters h ⊢
      cases henters with
      | fails hstage hunmoved => exact hunmoved.standing
      | arrives harrived => cases h
    · rw [hidle] at htalks
      cases htalks
  | poses htalks htoken hpending =>
    refine ⟨fun _ hsome => ?_, fun _ hidle => ?_, fun _ _ => ?_⟩
    · rw [htoken] at hsome
      cases hsome
    · rw [htalks] at hidle
      cases hidle
    · exact (Stationary.poseChoice q.outOfConversation).standing
  | ends htalks htoken hpending => cases h

omit [MediaSource μ] in
/-- A turn that fails stays in its script. -/
theorem LeftBehind.script {q p : Player μ} (h : LeftBehind q p) : p.script = q.script := by
  cases htoken : q.nextToken? with
  | some t =>
    obtain ⟨token, position, hpast⟩ := q.pastToken_cases
    have hstanding := h.token t htoken
    rw [hpast] at hstanding
    exact congrArg Standing.script hstanding
  | none =>
    cases hidle : q.isIdle with
    | true => exact congrArg Standing.script (h.chunk htoken hidle)
    | false => exact congrArg Standing.script (h.conv htoken hidle)

/-! ## Options -/

omit [MediaSource μ] in
theorem Goes.options {op : OpToken EventAction} {p : Player μ}
    {run : Except Fault Unit × Player μ} (h : Goes op p run) : run.2.options = p.options := by
  cases h with
  | stays hstage hunmoved hpasses => exact hunmoved.options
  | savesOnly haction hframe hstage hunmoved => exact hunmoved.options
  | jumps haction htarget hscript harrived => exact harrived.options
  | calls haction hframe htarget hscript harrived => exact harrived.options
  | returns haction hframe harrived => exact harrived.options
  | switches haction harrived => exact harrived.options
  | callsFile haction hframe harrived => exact harrived.options
  | converses haction hidle => rfl

/-- Playing does not change the options. -/
theorem advance_options (p : Player μ) : (advance p).2.options = p.options := by
  have hturn := advance_turn p
  generalize advance p = run at hturn ⊢
  cases hturn with
  | @token t htoken =>
    obtain ⟨token, position, hpast⟩ := p.pastToken_cases
    have hsame : p.pastToken.options = p.options := by rw [hpast]
    rcases playToken_cases t p.pastToken with ⟨hunmoved, _⟩ | ⟨op, _, hgoes⟩
    · exact hunmoved.options.trans hsame
    · exact hgoes.options.trans hsame
  | chunk hidle htoken =>
    have henters := setEvent_enters (p.state.chunk + 1) p
    generalize setEvent (p.state.chunk + 1) p = run at henters ⊢
    cases henters with
    | fails hstage hunmoved => exact hunmoved.options
    | arrives harrived => exact harrived.options
  | poses htalks htoken hpending => exact (Stationary.poseChoice p.outOfConversation).options
  | ends htalks htoken hpending => rfl

omit [MediaSource μ] in
theorem choose_options (index : Nat) (p : Player μ) : (choose index p).2.options = p.options := by
  obtain ⟨choice, hchoice⟩ := choose_snd index p
  rw [hchoice]

/-- The options at every turn are those that the player has. -/
theorem optionsLaws (options : RuntimeOptions) :
    RunLaws (μ := μ) (fun _ => False) fun p => p.options = options where
  begins h _ := h
  plays h _ _ _ := (advance_options _).trans h
  skips h _ _ _ := (advance_options _).trans h
  stops h _ _ := (advance_options _).trans h
  choose index p h := (choose_options index p).trans h

/-! ## Failed calls -/

/-- A call to play on that fails was refused, or has used up its budget, or was stopped at its last
turn with the place of that turn around the fault. -/
theorem process_fails {budget : Nat} {p : Player μ} {fault : Fault}
    (h : (process budget p).1 = .error fault) :
    Refused p ∨ fault = .exhausted ∨ ∃ q cause,
      ((Call.process budget).turns p).getLast? = some q ∧ (advance q).1 = .error cause ∧
      (q.options.continueOnError && cause.isPlayback) = false ∧
      fault = .at (nextPlace q.script.name q.state) cause ∧
      LeftBehind q (process budget p).2 := by
  rw [process_apply] at h ⊢
  rw [Call.turns]
  cases hrefusal : refusal? p.options p.state with
  | some cause => exact .inl (refusal?_eq_some hrefusal).1
  | none =>
    rw [hrefusal] at h
    rcases playTokens_fails h with hexhausted | ⟨q, cause, hlast, hcause, hstops, hplace, hleft⟩
    · exact .inr (.inl hexhausted)
    · have hbehind := advance_leftBehind hcause
      rw [advance_options] at hstops
      rw [hbehind.script] at hplace
      refine .inr (.inr ⟨q, cause, hlast, hcause, hstops, hplace, ?_⟩)
      have hfinal : (playTokens budget (p.withStatus .running)).2.standing =
          (advance q).2.standing := (congrArg Player.standing hleft).trans rfl
      exact ⟨fun t ht => hfinal.trans (hbehind.token t ht),
        fun hnone hidle => hfinal.trans (hbehind.chunk hnone hidle),
        fun hnone htalks => hfinal.trans (hbehind.conv hnone htalks)⟩

/-- What comes of a call to play on that does not succeed. A refused call changes nothing at all.
Another one fails at its last turn, and leaves the player where `LeftBehind` says, unless it has
used up its budget. And if errors are skipped, the root of the fault is never that a token cannot be
acted on. -/
theorem process_failure (budget : Nat) (p : Player μ) :
    (Refused p → ∃ flaw, process budget p = (.error (.state flaw), p)) ∧
    (¬ Refused p → ∀ fault, (process budget p).1 = .error fault →
      fault = .exhausted ∨ ∃ q cause, ((Call.process budget).turns p).getLast? = some q ∧
        (advance q).1 = .error cause ∧ fault = .at (nextPlace q.script.name q.state) cause ∧
        LeftBehind q (process budget p).2) ∧
    (MediaSource.TellsNoPlace μ → p.options.continueOnError = true →
      ∀ fault, (process budget p).1 = .error fault → fault.root.isPlayback = false) := by
  refine ⟨fun hrefused => ?_, fun hallowed fault hfault => ?_,
    fun hmedia hlenient fault hfault => ?_⟩
  · obtain ⟨flaw, hflaw⟩ := refusal?_of_refused hrefused
    refine ⟨flaw, ?_⟩
    rw [process_apply, hflaw]
  · rcases process_fails hfault with hrefused | hexhausted | ⟨q, cause, hlast, hcause, _, hrest⟩
    · exact absurd hrefused hallowed
    · exact .inl hexhausted
    · exact .inr ⟨q, cause, hlast, hcause, hrest⟩
  · rcases process_fails hfault with hrefused | rfl | ⟨q, cause, hlast, hcause, hstops, rfl, _⟩
    · obtain ⟨flaw, hflaw⟩ := refusal?_of_refused hrefused
      rw [process_apply, hflaw] at hfault
      cases hfault
      rfl
    · rfl
    · -- the fault of a turn has no place of its own, so that it was the turn's to skip it
      have hunplaced := unplaced_advance hmedia q
      rw [hcause] at hunplaced
      have hoptions : q.options = p.options := by
        have hback : ∀ index, .jumpBack index ∈ [Call.process budget] →
            Keeps (fun p' => p'.options = p.options) (jumpBack (μ := μ) index) := by
          intro index hindex
          simp at hindex
        refine (((optionsLaws p.options).always hback (p := p) rfl).1 q ?_).1
        simpa [Player.turns] using List.mem_of_getLast? hlast
      rw [hoptions, hlenient, Bool.true_and] at hstops
      rw [Fault.root, Fault.root_eq_self hunplaced]
      exact hstops

/-- A jump to a script that is not there fails behind the token of the jump, and with errors that
are not skipped the next call is refused. -/
theorem process_failure_at_missing_script :
    let media := FixedMedia.onlyScript "op00" [0x53, 0x43, 0x33, 0x00, 20, 0, 0, 0, 20, 0, 0, 0,
      16, 0, 0, 0, 0x10, 0x01, 0x7a, 0]
    let strict := { RuntimeOptions.default with continueOnError := false }
    (∃ start, (Player.new media (.new .first) .default).1 = .ok start ∧
      ∃ fault, (process 9 start).1 = .error fault ∧ fault.root.isPlayback = false) ∧
    ∃ start, (Player.new media (.new .first) strict).1 = .ok start ∧
      (∃ q, ((Call.process 9).turns start).getLast? = some q ∧ q.state.token = 0 ∧
        LeftBehind q (process 9 start).2) ∧
      (process 9 start).2.state.token = 1 ∧
      ∃ flaw, process 9 (process 9 start).2 = (.error (.state flaw), (process 9 start).2) := by
  intro media strict
  constructor
  · obtain ⟨start, hstart, hlenient, hfails⟩ :
        ∃ start ∈ (Player.new media (.new .first) .default).1.toOption,
          start.options.continueOnError = true ∧ (faultOf? (process 9 start).1).isSome := by
      decide +kernel
    obtain ⟨fault, hfault⟩ := Option.isSome_iff_exists.mp hfails
    refine ⟨start, ok_of_toOption hstart, fault, error_of_faultOf? hfault, ?_⟩
    exact (process_failure 9 start).2.2 FixedMedia.tellsNoPlace hlenient fault
      (error_of_faultOf? hfault)
  · obtain ⟨start, hstart, ⟨hpending, hrunning⟩, hstops, htoken, hturn, fault, hfault,
        hnotExhausted⟩ :
        ∃ start ∈ (Player.new media (.new .first) strict).1.toOption,
          (start.state.choicePending = false ∧ start.state.status = .running) ∧
          ((process 9 start).2.state.status = .error ∧
            (process 9 start).2.options.continueOnError = false) ∧
          (process 9 start).2.state.token = 1 ∧
          (∀ q ∈ (Call.process 9).turns start, q.state.token = 0) ∧
          ∃ fault ∈ faultOf? (process 9 start).1, fault ≠ .exhausted := by
      decide +kernel
    have hallowed : ¬ Refused start := by
      simp [Refused, hpending, hrunning]
    refine ⟨start, ok_of_toOption hstart, ?_, htoken, ?_⟩
    · rcases (process_failure 9 start).2.1 hallowed fault (error_of_faultOf? hfault) with
        hexhausted | ⟨q, _, hlast, _, _, hleft⟩
      · exact absurd hexhausted hnotExhausted
      · exact ⟨q, hlast, hturn q (List.mem_of_getLast? hlast), hleft⟩
    · exact (process_failure 9 (process 9 start).2).1 (.inr (.inr hstops))

end Play

end NovelScript
