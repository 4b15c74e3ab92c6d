import NovelScript.Proofs.Play.Alike
import NovelScript.Proofs.Play.Calls

/-! # Resuming

A state holds no data chunks. So a player that resumes at a state goes on as the player goes on
that the state was taken from, as long as that one passes no event chunk as data that it had come to
know before and that the other one does not know. This condition is exact. -/

namespace NovelScript

/-- A fault without the name of the script that it happened in. -/
def Fault.anonymous : Fault → Fault
  | .at place cause => .at { place with script := "" } cause.anonymous
  | fault => fault

/-- Calls that play on or answer choices. -/
def Call.goesOn : Call → Bool
  | process _ => true
  | choose _ => true
  | jumpBack _ => false

theorem Call.jumpBack_not_mem {calls : List Call} (h : calls.all goesOn = true) (index : Nat) :
    .jumpBack index ∉ calls := by
  intro hmem
  have hgoes := List.all_eq_true.mp h _ hmem
  cases hgoes

/-- Playback has shown something and can be resumed from there. -/
def Status.yields : Status → Bool
  | userAck => true
  | graphicsOp => true
  | choice => true
  | running => false
  | ended => false
  | error => false

namespace Play

variable {μ : Type} {serve : MediaKind → String → Except Fault View} {good : μ → Prop}
  {said said' : List FrontendCall} {p q : Player μ}

/-- Two runs with the same outcome, but for names of scripts in faults, that leave players alike. -/
structure Match (good : μ → Prop) (said said' : List FrontendCall) {α : Type}
    (a b : Except Fault α × Player μ) : Prop where
  outcome : a.1.mapError Fault.anonymous = b.1.mapError Fault.anonymous
  alike : Alike good said said' a.2 b.2

theorem Agree.matches {α : Type} {a b : Except Fault α × Player μ}
    (h : Agree good said said' a b) : Match good said said' a b :=
  ⟨by rw [h.outcome], h.alike⟩

theorem Agrees.choose (index : Nat) : Agrees good said said' (Play.choose (μ := μ) index) := by
  refine Agrees.state.bind fun s => ?_
  cases s.choice with
  | none => exact .lift _
  | some choice => exact (Agrees.lift _).bind fun answered => .updateState fun _ => rfl

/-- A restored player and the sound player in a code chunk that the state was taken from are
alike. -/
theorem Restored.alike {fresh : Player μ} (hp : Sound serve good p) (hcode : OnCode p)
    (hoptions : fresh.options = p.options)
    (h : Restored serve good fresh p.state p.events p.conv q)
    (hpolicy : fresh.recorder.policy = p.recorder.policy)
    (hanswered : fresh.recorder.answered = p.recorder.answered) :
    Alike good p.recorder.calls q.recorder.calls p q := by
  obtain ⟨script, hscript, hsame⟩ := hp.script
  rw [← hoptions] at hscript
  obtain rfl := Except.ok.inj (hscript.symm.trans h.script)
  refine ⟨⟨hp.media, h.media⟩, (h.options.trans hoptions).symm, hsame.symm, h.events.symm,
    h.conv.symm, h.state.symm, (h.front.1.trans hpolicy).symm, (h.front.2.trans hanswered).symm,
    ⟨[], (List.append_nil _).symm, (List.append_nil _).symm⟩, ?_, ?_⟩
  · intro i hi
    rw [h.dataChunks, Script.tokenizeEvent_congr hsame] at hi
    rcases DataChunks.mem_extend.mp hi with hi | hi
    · cases hi
    · exact hcode.targets i hi
  · intro i hi
    have hevents := hcode.events
    rw [← h.events] at hevents
    rw [Player.dataChunk?_of_events hevents] at hi
    cases hi

variable [MediaSource μ]

/-- Players that the next token parts are parted with a budget of one token. -/
theorem Apart.ofAdvance (hp : p.state.status = .running) (hq : q.state.status = .running)
    (h : Apart (advance p).2 (advance q).2) : Apart (playTokens 1 p).2 (playTokens 1 q).2 := by
  have hone : ∀ p : Player μ, p.state.status = .running →
      ∃ s : PlayState, (playTokens 1 p).2 = { (advance p).2 with state := s } ∧
        s.chunk = (advance p).2.state.chunk := by
    intro p hrunning
    rw [playTokens_succ hrunning]
    rcases advance p with ⟨outcome, p'⟩
    cases outcome with
    | ok _ => exact ⟨p'.state, rfl, rfl⟩
    | error fault =>
      simp only
      split
      · exact ⟨p'.state, rfl, rfl⟩
      · exact ⟨_, rfl, rfl⟩
  obtain ⟨s, hs, hchunk⟩ := hone p hp
  obtain ⟨s', hs', hchunk'⟩ := hone q hq
  rw [hs, hs']
  exact h.withState hchunk hchunk'

/-- Players alike play tokens alike, unless a smaller budget parts them. -/
theorem playTokens_alike (hmedia : Serves serve good) (budget : Nat)
    (h : Alike good said said' p q) :
    Match good said said' (playTokens budget p) (playTokens budget q) ∨
      ∃ spent, Apart (playTokens spent p).2 (playTokens spent q).2 := by
  induction budget generalizing p q with
  | zero => exact .inl ⟨rfl, h⟩
  | succ budget ih =>
    by_cases hq : q.state.status = .running
    · have hp : p.state.status = .running := h.state ▸ hq
      -- what is known of the players behind a token that both play
      have hnext : ∀ {p' q'}, Alike good said said' p' q' →
          (∀ spent, playTokens (spent + 1) p = playTokens spent p') →
          (∀ spent, playTokens (spent + 1) q = playTokens spent q') →
          Match good said said' (playTokens (budget + 1) p) (playTokens (budget + 1) q) ∨
            ∃ spent, Apart (playTokens spent p).2 (playTokens spent q).2 := by
        intro p' q' halike hp' hq'
        rw [hp', hq']
        rcases ih halike with hmatch | ⟨spent, hapart⟩
        · exact .inl hmatch
        · exact .inr ⟨spent + 1, by rw [hp', hq']; exact hapart⟩
      rcases MayPart.advance hmedia p q h with hagree | hapart
      · rcases hagree.cases with ⟨fault, p', q', hp', hq', halike⟩ | ⟨_, p', q', hp', hq', halike⟩
        · by_cases hskips : (q'.options.continueOnError && fault.isPlayback) = true
          · have hskipped : (p'.options.continueOnError && fault.isPlayback) = true :=
              halike.options ▸ hskips
            refine hnext halike (fun spent => ?_) fun spent => ?_
            · rw [playTokens_succ hp, hp']
              exact if_pos hskipped
            · rw [playTokens_succ hq, hq']
              exact if_pos hskips
          · have hskipped : ¬ (p'.options.continueOnError && fault.isPlayback) = true :=
              halike.options ▸ hskips
            rw [playTokens_succ hp, playTokens_succ hq, hp', hq']
            simp only
            rw [if_neg hskipped, if_neg hskips, h.state, halike.state]
            refine .inl ⟨?_, halike.withState rfl⟩
            unfold nextPlace
            cases q.state.conv with
            | none => rfl
            | some position => rfl
        · refine hnext halike (fun spent => ?_) fun spent => ?_
          · rw [playTokens_succ hp, hp']
          · rw [playTokens_succ hq, hq']
      · exact .inr ⟨1, hapart.ofAdvance hp hq⟩
    · have hp : p.state.status ≠ .running := h.state ▸ hq
      rw [playTokens_stands hp, playTokens_stands hq, h.state]
      exact .inl ⟨rfl, h⟩

theorem process_alike (hmedia : Serves serve good) (budget : Nat)
    (h : Alike good said said' p q) :
    Match good said said' (process budget p) (process budget q) ∨
      ∃ spent, Apart (process spent p).2 (process spent q).2 := by
  have hrefusal : refusal? p.options p.state = refusal? q.options q.state := by
    rw [h.options, h.state]
  simp only [process_apply, hrefusal]
  cases refusal? q.options q.state with
  | some fault => exact .inl ⟨rfl, h⟩
  | none =>
    rw [h.state]
    exact playTokens_alike hmedia budget (h.withState rfl)

/-- Players alike answer a call alike, unless a call parts them. -/
theorem run_alike (hmedia : Serves serve good) {call : Call} (hcall : call.goesOn = true)
    (h : Alike good said said' p q) :
    Match good said said' (call.run p) (call.run q) ∨
      ∃ other : Call, other.goesOn = true ∧ Apart (other.run p).2 (other.run q).2 := by
  cases call with
  | jumpBack index => cases hcall
  | choose index =>
    exact .inl ((Agrees.choose index).bind (fun _ => .lift (.ok none)) p q h).matches
  | process budget =>
    rcases process_alike hmedia budget h with hmatch | ⟨spent, hapart⟩
    · have hmap (outcome : Except Fault Status) : (outcome.map some).mapError Fault.anonymous =
          (outcome.mapError Fault.anonymous).map some := by
        cases outcome with
        | error fault => rfl
        | ok status => rfl
      rw [Call.run_process, Call.run_process]
      refine .inl ⟨?_, hmatch.alike⟩
      rw [hmap, hmap, hmatch.outcome]
    · refine .inr ⟨.process spent, rfl, ?_⟩
      rw [Call.run_process, Call.run_process]
      exact hapart

/-- Players alike stay alike if no calls part them. -/
theorem after_alike (hmedia : Serves serve good)
    (htogether : ∀ calls, calls.all Call.goesOn = true → ¬ Apart (p.after calls) (q.after calls))
    (h : Alike good said said' p q) {calls : List Call} (hcalls : calls.all Call.goesOn = true) :
    Alike good said said' (p.after calls) (q.after calls) := by
  induction calls generalizing p q with
  | nil => exact h
  | cons call calls ih =>
    rw [List.all_cons, Bool.and_eq_true] at hcalls
    obtain ⟨hcall, hcalls⟩ := hcalls
    rw [Player.after_cons, Player.after_cons]
    rcases run_alike hmedia hcall h with hmatch | ⟨other, hother, hapart⟩
    · refine ih (fun more hmore => ?_) hmatch.alike hcalls
      have hcons := htogether (call :: more) (by rw [List.all_cons, hcall, hmore]; rfl)
      rwa [Player.after_cons, Player.after_cons] at hcons
    · exact absurd hapart (htogether [other] (by rw [List.all_cons, hother]; rfl))

/-! ## Resuming and continuing -/

/-- Two answers to a call that cannot be told apart, by players whose front ends were told the same
since they were `p` and `q`: the same outcome but for names of scripts in faults, the same calls of
the front end, the same state and the same token lists. -/
structure SameAnswer (p q : Player μ) (a b : Except Fault (Option Status) × Player μ) : Prop where
  outcome : a.1.mapError Fault.anonymous = b.1.mapError Fault.anonymous
  calls : ∃ calls, a.2.recorder.calls = p.recorder.calls ++ calls ∧
    b.2.recorder.calls = q.recorder.calls ++ calls
  state : a.2.state = b.2.state
  events : a.2.events = b.2.events
  conv : a.2.conv = b.2.conv

/-- Two players give the same answer to every call that goes on, whatever calls they have gone on
with before. -/
def SameAnswers (p q : Player μ) : Prop :=
  ∀ calls call, (calls ++ [call]).all Call.goesOn = true →
    SameAnswer p q (call.run (p.after calls)) (call.run (q.after calls))

/-- Wherever the first player passes an event chunk as data when it goes on, the second one does so
as well. -/
def SameData (p q : Player μ) : Prop :=
  ∀ calls, calls.all Call.goesOn = true → ∀ i, (p.after calls).dataChunk? = some i →
    (q.after calls).dataChunk? = some i

/-- Players that are alike go on alike exactly if they pass the same chunks as data. -/
theorem Alike.sameAnswers_iff (hmedia : Serves serve good)
    (h : Alike good p.recorder.calls q.recorder.calls p q) :
    SameAnswers p q ↔ SameData p q := by
  constructor
  · intro hsame calls hcalls i hi
    rcases List.eq_nil_or_concat calls with rfl | ⟨calls, call, rfl⟩
    · rw [← hi]
      exact Player.dataChunk?_congr h.events.symm (congrArg PlayState.chunk h.state.symm)
    · rw [List.concat_eq_append] at hcalls hi ⊢
      have hanswer := hsame calls call hcalls
      rw [Player.after_append] at hi ⊢
      rw [← hi]
      exact Player.dataChunk?_congr hanswer.events.symm (congrArg PlayState.chunk hanswer.state.symm)
  · intro hpasses calls call hcalls
    have htogether : ∀ calls, calls.all Call.goesOn = true →
        ¬ Apart (p.after calls) (q.after calls) :=
      fun calls hcalls ⟨i, hp, hq⟩ => hq (hpasses calls hcalls i hp)
    rw [List.all_append, Bool.and_eq_true] at hcalls
    obtain ⟨hcalls, hcall⟩ := hcalls
    have halike := after_alike hmedia htogether h hcalls
    rw [List.all_cons, List.all_nil, Bool.and_true] at hcall
    rcases run_alike hmedia hcall halike with hmatch | ⟨other, hother, hapart⟩
    · exact ⟨hmatch.outcome, hmatch.alike.calls, hmatch.alike.state, hmatch.alike.events,
        hmatch.alike.conv⟩
    · have hmore : (calls ++ [other]).all Call.goesOn = true := by
        rw [List.all_append, hcalls, List.all_cons, hother]
        rfl
      have htogether := htogether (calls ++ [other]) hmore
      rw [Player.after_append, Player.after_append] at htogether
      exact absurd hapart htogether

/-- A sound player that has shown something can be resumed in a new one. -/
theorem Sound.restore_iff (hmedia : Serves serve good) (hp : Sound serve good p)
    (hstatus : p.state.status.yields = true) {recorder : Recorder} {fresh : Player μ}
    (hfresh : Starts serve good recorder p.options fresh)
    (hpolicy : recorder.policy = p.recorder.policy)
    (hanswered : recorder.answered = p.recorder.answered) :
    ∃ q, restore p.state fresh = (.ok (), q) ∧ q.state = p.state ∧
      (SameAnswers p q ↔ SameData p q) := by
  have hcode : OnCode p := by
    rcases hp.tokens with hcode | hdata
    · exact hcode
    · rcases hdata.status with h | h
      · rw [h] at hstatus
        cases hstatus
      · rw [h] at hstatus
        cases hstatus
  have hresumes := hp.resumes hcode
  rw [← hfresh.options] at hresumes
  obtain ⟨q, hrun, hrestored⟩ := restore_spec hmedia hfresh.sound.media hresumes
  have halike := hrestored.alike hp hcode hfresh.options (by rw [hfresh.recorder, hpolicy])
    (by rw [hfresh.recorder, hanswered])
  exact ⟨q, hrun, hrestored.state, halike.sameAnswers_iff hmedia⟩

/-- A state that is taken after playback has shown a text, a picture or a choice, and maybe after
answers, can be restored in a new player. Resuming is then the same as continuing exactly if every
event chunk that the player that continues passes as data is passed as data by the player that
resumes. -/
theorem restore_continues_iff (hmedia : Serves serve good) {media media' : μ} (hgood : good media)
    (hgood' : good media') {recorder recorder' : Recorder} {options : RuntimeOptions}
    {start fresh : Player μ} (hstart : (Player.new media recorder options).1 = .ok start)
    (hfresh : (Player.new media' recorder' options).1 = .ok fresh) (calls : List Call)
    (budget : Nat) (answers : List Nat) {status : Status}
    (hprocess : (process budget (start.after calls)).1 = .ok status)
    (hyields : status.yields = true) :
    let p := start.after (calls ++ .process budget :: answers.map .choose)
    recorder'.policy = p.recorder.policy → recorder'.answered = p.recorder.answered →
    ∃ q, restore p.state fresh = (.ok (), q) ∧ q.state = p.state ∧
      (SameAnswers p q ↔ SameData p q) := by
  intro p hpolicy hanswered
  obtain ⟨hp, hoptions⟩ := sound_after hmedia (new_starts hmedia hgood hstart)
    (calls ++ .process budget :: answers.map .choose)
  have hstatus : p.state.status = status := by
    have hprocessed : p = (process budget (start.after calls)).2.after (answers.map .choose) := by
      rw [← Call.run_process_snd, ← Player.after_cons, ← Player.after_append]
    rw [hprocessed, after_choices_status]
    exact process_status hprocess
  have hnew := new_starts hmedia hgood' hfresh
  rw [← hoptions] at hnew
  exact hp.restore_iff hmedia (hstatus ▸ hyields) hnew hpolicy hanswered

/-- A script that calls its second chunk, behind which lies a chunk that the first one refers to
for its bytes. The player that continues fails there, the player that resumes plays the bytes. -/
theorem restore_forgets_data_chunk :
    let media := FixedMedia.onlyScript "op00" [0x53, 0x43, 0x33, 0x00, 52, 0, 0, 0, 52, 0, 0, 0,
      24, 0, 0, 0, 48, 0, 0, 0, 50, 0, 0, 0, 0x00, 0x0b, 1, 0, 0x01, 0x13, 0, 0, 0, 0, 0, 0, 0, 0,
      0, 0, 0, 0, 0, 0, 0, 0, 2, 0, 0x10, 0x18, 0x10, 0x18]
    let options : RuntimeOptions := { RuntimeOptions.default with continueOnError := false }
    ∃ start q, (Player.new media (.new .first) options).1 = .ok start ∧
      let p := start.after [.process 5]
      (process 5 start).1.toOption = some .graphicsOp ∧ restore p.state start = (.ok (), q) ∧
      q.state = p.state ∧ (process 5 p).1.toOption = none ∧
      (process 5 q).1.toOption = some .graphicsOp ∧ ¬ SameAnswers p q := by
  intro media options
  obtain ⟨start, hstart, hyields, hpolicy, hanswered, hp, hq, hdata, hcode⟩ :
      ∃ start ∈ (Player.new media (.new .first) options).1.toOption,
        let p := start.after [.process 5]
        let q := (restore p.state start).2
        (process 5 start).1.toOption = some .graphicsOp ∧
        p.recorder.policy = .first ∧ p.recorder.answered = 0 ∧
        (process 5 p).1.toOption = none ∧ (process 5 q).1.toOption = some .graphicsOp ∧
        (p.after [.process 1]).dataChunk? = some 2 ∧ (q.after [.process 1]).dataChunk? = none := by
    decide +kernel
  have hnew := ok_of_toOption hstart
  obtain ⟨q, hrestore, hstate, hiff⟩ := restore_continues_iff (FixedMedia.onlyScript_serves _ _) rfl
    rfl hnew hnew [] 5 [] (ok_of_toOption hyields) rfl hpolicy.symm hanswered.symm
  rw [List.map_nil, List.nil_append] at hrestore hstate hiff
  rw [hrestore] at hq hcode
  refine ⟨start, q, hnew, hyields, hrestore, hstate, hp, hq, fun hsame => ?_⟩
  have hpasses := hiff.mp hsame [.process 1] rfl 2 hdata
  rw [hcode] at hpasses
  cases hpasses

end Play

end NovelScript
