import NovelScript.Proofs.Play.Restoring

/-! # Calls of a player

A player is used by calls: it is told to play on, to answer the posed choice, or to go back. A call
to play on passes many players on its way, which are those that smaller budgets leave. From each of
them to the next is a step, so every player that is reached from a new one is sound. -/

namespace NovelScript

/-- A call of a player. -/
inductive Call where
  | process (budget : Nat)
  | choose (index : Nat)
  | jumpBack (index : Nat)
deriving DecidableEq, Repr

namespace Call

variable {μ : Type} [MediaSource μ]

/-- Makes a call. Only playing on has a status to tell. -/
def run : Call → Play μ (Option Status)
  | process budget => some <$> Play.process budget
  | choose index => do
    Play.choose index
    return none
  | jumpBack index => do
    Play.jumpBack index
    return none

/-- The players that a call passes, the last of which it leaves. -/
def moments : Call → Player μ → List (Player μ)
  | process budget, p => (List.range (budget + 1)).map fun spent => (Play.process spent p).2
  | choose index, p => [(Play.choose index p).2]
  | jumpBack index, p => [(Play.jumpBack index p).2]

theorem run_process (budget : Nat) (p : Player μ) :
    (process budget).run p =
      ((Play.process budget p).1.map some, (Play.process budget p).2) := by
  rw [run, map_eq_pure_bind, bind_apply]
  rcases Play.process budget p with ⟨outcome, p'⟩
  cases outcome with
  | error fault => rfl
  | ok status => rfl

theorem run_process_snd (budget : Nat) (p : Player μ) :
    ((process budget).run p).2 = (Play.process budget p).2 := by
  rw [run_process]

omit [MediaSource μ] in
theorem run_of_unit {x : Play μ Unit} (p : Player μ) :
    (x >>= fun _ => pure (none : Option Status) : Play μ (Option Status)) p =
      ((x p).1.map fun _ => none, (x p).2) := by
  rw [bind_apply]
  rcases x p with ⟨outcome, p'⟩
  cases outcome with
  | error fault => rfl
  | ok _ => rfl

end Call

namespace Player

variable {μ : Type} [MediaSource μ]

/-- The player after calls. -/
def after (p : Player μ) (calls : List Call) : Player μ :=
  calls.foldl (fun p call => (call.run p).2) p

theorem after_cons (p : Player μ) (call : Call) (calls : List Call) :
    p.after (call :: calls) = (call.run p).2.after calls := rfl

theorem after_append (p : Player μ) (calls more : List Call) :
    p.after (calls ++ more) = (p.after calls).after more :=
  List.foldl_append

/-- All players that calls pass. -/
def moments (p : Player μ) : List Call → List (Player μ)
  | [] => []
  | call :: calls => call.moments p ++ (call.run p).2.moments calls

end Player

namespace Play

variable {μ : Type} {serve : MediaKind → String → Except Fault View} {good : μ → Prop}

theorem Steps.refl {p : Player μ} (hp : Sound serve good p) : Steps serve good p p :=
  ⟨hp, rfl, .keeps rfl⟩

theorem choose_apply (index : Nat) (p : Player μ) :
    choose index p =
      match p.state.choice with
      | none => (.error (.state .noChoiceToAnswer), p)
      | some choice =>
        match choice.choose index with
        | .error fault => (.error fault, p)
        | .ok answered => (.ok (), { p with state := { p.state with choice := some answered } }) := by
  rw [choose, bind_apply]
  simp only [state]
  cases p.state.choice with
  | none => rfl
  | some choice =>
    simp only
    rw [bind_apply]
    simp only [lift]
    cases choice.choose index with
    | error fault => rfl
    | ok answered => rfl

/-- Answering changes nothing but the choice. -/
theorem choose_snd (index : Nat) (p : Player μ) :
    ∃ choice, (choose index p).2 = { p with state := { p.state with choice := choice } } := by
  rw [choose_apply]
  split
  · exact ⟨p.state.choice, rfl⟩
  · split
    · exact ⟨p.state.choice, rfl⟩
    · exact ⟨_, rfl⟩

theorem choose_steps {p : Player μ} (hp : Sound serve good p) (index : Nat) :
    Steps serve good p (choose index p).2 := by
  obtain ⟨choice, hchoice⟩ := choose_snd index p
  have hplain : PlayState.Plain fun s => { s with choice := choice } := .same fun _ => rfl
  rw [hchoice]
  exact ⟨hp.updateState hplain (.inl rfl), rfl, .keeps rfl⟩

variable [MediaSource μ]

theorem after_choices_status (p : Player μ) (answers : List Nat) :
    (p.after (answers.map .choose)).state.status = p.state.status := by
  induction answers generalizing p with
  | nil => rfl
  | cons index answers ih =>
    obtain ⟨choice, hchoice⟩ := choose_snd index p
    rw [List.map_cons, Player.after_cons, ih, Call.run, Call.run_of_unit, hchoice]

theorem jumpBack_steps (hmedia : Serves serve good) {p : Player μ} (hp : Sound serve good p)
    (index : Nat) : Steps serve good p (jumpBack index p).2 := by
  cases hentry : p.backlog[index]? with
  | none =>
    rw [jumpBack_of_none hentry]
    exact .refl hp
  | some entry =>
    obtain ⟨p', hrun, hrewound⟩ := jumpBack_spec hmedia hp hentry
    rw [hrun]
    exact ⟨hrewound.sound, hrewound.options, .cuts _ hrewound.backlog⟩

/-! ## Playing on -/

/-- Where one token takes a player: on, or to a stop if the token cannot be played. -/
inductive Plays (p p' : Player μ) : Prop where
  | stands (h : p' = p)
  | plays (hrunning : p.state.status = .running) (h : p' = (advance p).2)
  | fails (hrunning : p.state.status = .running) (fault : Fault)
      (hfault : (advance p).1 = .error fault)
      (h : p' = { (advance p).2 with
        state := { (advance p).2.state with status := .error } })

/-- A running player plays one token and goes on with a smaller budget, or stops. -/
theorem playTokens_succ {p : Player μ} (hrunning : p.state.status = .running) (budget : Nat) :
    playTokens (budget + 1) p =
      match advance p with
      | (.ok (), p') => playTokens budget p'
      | (.error fault, p') =>
        if p'.options.continueOnError && fault.isPlayback then playTokens budget p'
        else
          (.error (.at (nextPlace p'.script.name p.state) fault),
            { p' with state := { p'.state with status := .error } }) := by
  rw [playTokens]
  exact if_neg (not_not_intro hrunning)

theorem playTokens_stands {p : Player μ} (hstatus : p.state.status ≠ .running) (budget : Nat) :
    playTokens (budget + 1) p = (.ok p.state.status, p) := by
  rw [playTokens]
  exact if_pos hstatus

/-- A larger budget is spent on one more token. -/
theorem playTokens_plays (budget : Nat) (p : Player μ) :
    Plays (playTokens budget p).2 (playTokens (budget + 1) p).2 := by
  induction budget generalizing p with
  | zero =>
    have hzero : (playTokens 0 p).2 = p := rfl
    rw [hzero]
    by_cases hstatus : p.state.status = .running
    · rw [playTokens_succ hstatus]
      rcases hrun : advance p with ⟨outcome, p'⟩
      have hplayed : p' = (advance p).2 := by rw [hrun]
      cases outcome with
      | ok _ => exact .plays hstatus hplayed
      | error fault =>
        simp only
        split
        · exact .plays hstatus hplayed
        · exact .fails hstatus fault (by rw [hrun]) (by rw [hrun])
    · rw [playTokens_stands hstatus]
      exact .stands rfl
  | succ budget ih =>
    by_cases hstatus : p.state.status = .running
    · rw [playTokens_succ hstatus, playTokens_succ hstatus]
      rcases advance p with ⟨outcome, p'⟩
      cases outcome with
      | ok _ => exact ih p'
      | error fault =>
        simp only
        split
        · exact ih p'
        · exact .stands rfl
    · rw [playTokens_stands hstatus, playTokens_stands hstatus]
      exact .stands rfl

/-- Why playing on is refused, if it is. -/
def refusal? (options : RuntimeOptions) (s : PlayState) : Option Fault :=
  if s.choicePending then some (.state .choiceWaiting)
  else if s.status = .ended then some (.state .playbackEnded)
  else if s.status = .error ∧ options.continueOnError = false then some (.state .playbackStopped)
  else none

/-- Playing on is refused, or sets the status and plays tokens. -/
theorem process_apply (budget : Nat) (p : Player μ) :
    process budget p =
      match refusal? p.options p.state with
      | some fault => (.error fault, p)
      | none => playTokens budget { p with state := { p.state with status := .running } } := by
  simp only [process, bind_apply, player, refusal?]
  split
  · rfl
  · split
    · rfl
    · split
      · rfl
      · rfl

theorem process_zero_steps {p : Player μ} (hp : Sound serve good p) :
    Steps serve good p (process 0 p).2 := by
  rw [process_apply]
  cases refusal? p.options p.state with
  | some fault => exact .refl hp
  | none =>
    have hplain : PlayState.Plain fun s => { s with status := .running } := .same fun _ => rfl
    exact ⟨hp.updateState hplain (.inr (.inl rfl)), rfl, .keeps rfl⟩

theorem process_plays (budget : Nat) (p : Player μ) :
    Plays (process budget p).2 (process (budget + 1) p).2 := by
  rw [process_apply, process_apply]
  cases refusal? p.options p.state with
  | some fault => exact .stands rfl
  | none => exact playTokens_plays budget _

/-- The status that playing on tells is the status that the player is left with. -/
theorem playTokens_status {budget : Nat} {p : Player μ} {status : Status}
    (h : (playTokens budget p).1 = .ok status) : (playTokens budget p).2.state.status = status := by
  induction budget generalizing p with
  | zero => cases h
  | succ budget ih =>
    by_cases hrunning : p.state.status = .running
    · rw [playTokens_succ hrunning] at h ⊢
      rcases hrun : advance p with ⟨outcome, p'⟩
      rw [hrun] at h
      cases outcome with
      | ok _ => exact ih h
      | error fault =>
        simp only at h ⊢
        split at h
        · rename_i hskipped
          rw [if_pos hskipped]
          exact ih h
        · cases h
    · rw [playTokens_stands hrunning] at h ⊢
      exact Except.ok.inj h

theorem process_status {budget : Nat} {p : Player μ} {status : Status}
    (h : (process budget p).1 = .ok status) : (process budget p).2.state.status = status := by
  rw [process_apply] at h ⊢
  cases hrefusal : refusal? p.options p.state with
  | some fault =>
    rw [hrefusal] at h
    cases h
  | none =>
    rw [hrefusal] at h
    exact playTokens_status h

theorem Plays.steps (hmedia : Serves serve good) {p p' : Player μ} (hp : Sound serve good p)
    (h : Plays p p') : Steps serve good p p' := by
  cases h with
  | stands h =>
    rw [h]
    exact .refl hp
  | plays hrunning h =>
    rw [h]
    exact (advance_runs hmedia hp hrunning).toSteps
  | fails hrunning fault hfault h =>
    have hruns := advance_runs hmedia hp hrunning
    have hplain : PlayState.Plain fun s => { s with status := .error } := .same fun _ => rfl
    rw [h]
    exact ⟨hruns.sound.updateState hplain (.inr (.inr rfl)), hruns.options,
      .keeps (hruns.failed fault hfault)⟩

/-! ## Whole runs -/

/-- A new player: it is sound, and nothing was shown yet. -/
structure Starts (serve : MediaKind → String → Except Fault View) (good : μ → Prop)
    (recorder : Recorder) (options : RuntimeOptions) (p : Player μ) : Prop where
  sound : Sound serve good p
  backlog : p.backlog = []
  recorder : p.recorder = recorder
  options : p.options = options

/-- A new player stands at the first event chunk of its start script. -/
theorem new_ok {media : μ} {recorder : Recorder} {options : RuntimeOptions} {p : Player μ}
    (h : (Player.new media recorder options).1 = .ok p) :
    ∃ view script events,
      (MediaSource.load media .script options.start).1 = .ok view ∧
      Script.parse view options.start options.title options.parse = .ok script ∧
      (script.tokenizeEvent [] 0 false).result = .ok events ∧
      p = {
        media := (MediaSource.load media .script options.start).2
        recorder := recorder
        options := options
        script := script
        dataChunks := DataChunks.extend [] (script.tokenizeEvent [] 0 false).targets
        events := events
        conv := none
        state := .new options.start (options.seed.getD 0)
        backlog := [] } := by
  unfold Player.new at h
  rcases hload : MediaSource.load media .script options.start with ⟨outcome, loaded⟩
  rw [hload] at h
  cases outcome with
  | error fault => cases h
  | ok view =>
    obtain ⟨script, hscript, h⟩ := exceptBind_eq_ok h
    obtain ⟨events, hevents, h⟩ := exceptBind_eq_ok h
    cases h
    exact ⟨view, script, events, rfl, hscript, hevents, rfl⟩

theorem new_starts (hmedia : Serves serve good) {media : μ} (hgood : good media)
    {recorder : Recorder} {options : RuntimeOptions} {p : Player μ}
    (h : (Player.new media recorder options).1 = .ok p) :
    Starts serve good recorder options p := by
  have hanswer := hmedia.answer hgood .script options.start
  have hkeeps := hmedia.keeps hgood .script options.start
  obtain ⟨view, script, events, hview, hscript, hevents, rfl⟩ := new_ok h
  refine ⟨⟨hkeeps, ⟨script, ?_, rfl⟩, .inl ⟨hevents, ?_⟩, rfl, ⟨?_, ?_⟩, ?_⟩, rfl, rfl, rfl⟩
  · simp only [scriptNamed, PlayState.new, ← hanswer, hview]
    exact hscript
  · exact fun i hi => DataChunks.mem_extend.mpr (.inr hi)
  · rintro name ⟨⟩
  · rintro entry ⟨⟩
  · rintro entry ⟨⟩

/-- What every step keeps holds of every player that a call passes. -/
theorem moments_induct (hmedia : Serves serve good) {β : Type} {P : β → Player μ → Prop}
    {f : β → Player μ → β} (hsound : ∀ {b p}, P b p → Sound serve good p)
    (hstep : ∀ {b p p'}, P b p → Steps serve good p p' → P (f b p') p') (call : Call) {b : β}
    {p : Player μ} (h : P b p) : P ((call.moments p).foldl f b) (call.run p).2 := by
  have hp := hsound h
  cases call with
  | choose index =>
    rw [Call.run, Call.run_of_unit]
    exact hstep h (choose_steps hp index)
  | jumpBack index =>
    rw [Call.run, Call.run_of_unit]
    exact hstep h (jumpBack_steps hmedia hp index)
  | process budget =>
    rw [Call.run_process]
    simp only [Call.moments]
    induction budget with
    | zero => exact hstep h (process_zero_steps hp)
    | succ budget ih =>
      rw [List.range_succ, List.map_append, List.foldl_append]
      exact hstep ih ((process_plays budget p).steps hmedia (hsound ih))

theorem after_induct (hmedia : Serves serve good) {β : Type} {P : β → Player μ → Prop}
    {f : β → Player μ → β} (hsound : ∀ {b p}, P b p → Sound serve good p)
    (hstep : ∀ {b p p'}, P b p → Steps serve good p p' → P (f b p') p') (calls : List Call) {b : β}
    {p : Player μ} (h : P b p) : P ((p.moments calls).foldl f b) (p.after calls) := by
  induction calls generalizing b p with
  | nil => exact h
  | cons call calls ih =>
    rw [Player.moments, List.foldl_append]
    have hcall := moments_induct (P := P) (f := f) hmedia hsound hstep call h
    exact ih hcall

/-- Every player that a new one becomes by calls is sound. -/
theorem sound_after (hmedia : Serves serve good) {recorder : Recorder} {options : RuntimeOptions}
    {start : Player μ} (hstart : Starts serve good recorder options start) (calls : List Call) :
    Sound serve good (start.after calls) ∧ (start.after calls).options = options := by
  refine after_induct (P := fun (_ : Unit) p => Sound serve good p ∧ p.options = options)
    (f := fun u _ => u) (b := ()) hmedia (fun h => h.1) (fun h hsteps => ?_) calls
    ⟨hstart.sound, hstart.options⟩
  exact ⟨hsteps.sound, hsteps.options.trans h.2⟩

end Play

end NovelScript
