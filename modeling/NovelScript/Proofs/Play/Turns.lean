import NovelScript.Proofs.Play.Moves

/-! # Turns

A call to play on plays one token after the other. The players from which it plays a token are its
turns, and `Turn` says what a single one comes down to. What every turn keeps is kept by whole runs
of calls, also if it is about what is remembered of the turns before; a property that some turn is
to end holds up to the first such turn. -/

namespace NovelScript

/-- Something holds of the items of a list up to the first one that is last, and of that one. -/
def HoldsUntil {α : Type} (last holds : α → Prop) : List α → Prop
  | [] => True
  | a :: rest => holds a ∧ (¬ last a → HoldsUntil last holds rest)

namespace HoldsUntil

variable {α : Type} {last holds : α → Prop}

theorem mono {holds' : α → Prop} (h : ∀ a, holds a → holds' a) {list : List α}
    (hlist : HoldsUntil last holds list) : HoldsUntil last holds' list := by
  induction list with
  | nil => trivial
  | cons a rest ih => exact ⟨h a hlist.1, fun ha => ih (hlist.2 ha)⟩

/-- Where no item is last, all items are meant. -/
theorem forall_mem {list : List α} (h : HoldsUntil last holds list) (hlast : ∀ a ∈ list, ¬ last a) :
    ∀ a ∈ list, holds a := by
  induction list with
  | nil => exact fun a ha => by cases ha
  | cons a rest ih =>
    intro b hb
    rcases List.mem_cons.mp hb with rfl | hb
    · exact h.1
    · exact ih (h.2 (hlast a List.mem_cons_self))
        (fun c hc => hlast c (List.mem_cons_of_mem a hc)) b hb

end HoldsUntil

/-- The items of a list, each with what is remembered of those in front of it. -/
def remembering {α β : Type} (remember : β → α → β) : β → List α → List (β × α)
  | _, [] => []
  | b, a :: rest => (b, a) :: remembering remember (remember b a) rest

theorem remembering_append {α β : Type} (remember : β → α → β) (b : β) (front back : List α) :
    remembering remember b (front ++ back) =
      remembering remember b front ++ remembering remember (front.foldl remember b) back := by
  induction front generalizing b with
  | nil => rfl
  | cons a front ih =>
    rw [List.cons_append, remembering, ih]
    rfl

section Ending

variable {α : Type} {last holds : α → Prop}

/-- Whether a last item was passed. -/
def passing (last : α → Prop) (passed : Prop) (a : α) : Prop := passed ∨ last a

theorem HoldsUntil.of_remembering {list : List α} {passed : Prop} (hpassed : ¬ passed)
    (h : ∀ x ∈ remembering (passing last) passed list, x.1 ∨ holds x.2) :
    HoldsUntil last holds list := by
  induction list generalizing passed with
  | nil => trivial
  | cons a rest ih =>
    refine ⟨(h _ List.mem_cons_self).resolve_left hpassed, fun ha => ?_⟩
    have hnow : ¬ passing last passed a := fun hnow => hnow.elim hpassed ha
    exact ih hnow fun x hx => h x (List.mem_cons_of_mem _ hx)

theorem not_foldl_passing {list : List α} {passed : Prop} (hpassed : ¬ passed)
    (h : ∀ a ∈ list, ¬ last a) : ¬ list.foldl (passing last) passed := by
  induction list generalizing passed with
  | nil => exact hpassed
  | cons a rest ih =>
    have hnow : ¬ passing last passed a := fun hnow => hnow.elim hpassed (h a List.mem_cons_self)
    exact ih hnow fun b hb => h b (List.mem_cons_of_mem a hb)

end Ending

namespace Player

variable {μ : Type}

/-- Whether the player stands between conversations, so that the next token is an event token. -/
def isIdle (p : Player μ) : Bool := p.conv.isNone || p.state.conv.isNone

/-- The token that is played next. -/
def nextToken? (p : Player μ) : Option Token :=
  match p.conv, p.state.conv with
  | some tokens, some position => tokens[position.token]?
  | _, _ => p.events[p.state.token]?

/-- The player one token further on. -/
def pastToken (p : Player μ) : Player μ :=
  match p.conv, p.state.conv with
  | some _, some position =>
    { p with state := { p.state with conv := some { position with token := position.token + 1 } } }
  | _, _ => { p with state := { p.state with token := p.state.token + 1 } }

/-- The player behind its conversation. -/
def outOfConversation (p : Player μ) : Player μ :=
  { p with conv := none, state := { p.state with conv := none } }

def withStatus (p : Player μ) (status : Status) : Player μ :=
  { p with state := { p.state with status := status } }

theorem isIdle_eq_false {p : Player μ} (h : p.isIdle = false) :
    ∃ tokens position, p.conv = some tokens ∧ p.state.conv = some position := by
  simp only [isIdle, Bool.or_eq_false_iff, Option.isNone_eq_false_iff] at h
  obtain ⟨tokens, htokens⟩ := Option.isSome_iff_exists.mp h.1
  obtain ⟨position, hposition⟩ := Option.isSome_iff_exists.mp h.2
  exact ⟨tokens, position, htokens, hposition⟩

theorem nextToken?_of_idle {p : Player μ} (h : p.isIdle = true) :
    p.nextToken? = p.events[p.state.token]? := by
  unfold isIdle at h
  unfold nextToken?
  split
  · simp_all
  · rfl

theorem pastToken_of_idle {p : Player μ} (h : p.isIdle = true) :
    p.pastToken = { p with state := { p.state with token := p.state.token + 1 } } := by
  unfold isIdle at h
  unfold pastToken
  split
  · simp_all
  · rfl

theorem nextToken?_of_talking {p : Player μ} {tokens : List Token} {position : ConvPosition}
    (hconv : p.conv = some tokens) (hposition : p.state.conv = some position) :
    p.nextToken? = tokens[position.token]? := by
  simp only [nextToken?, hconv, hposition]

/-- In a conversation one of its tokens is taken, and the place in the event chunk stays. -/
theorem pastToken_of_talking {p : Player μ} {tokens : List Token} {position : ConvPosition}
    (hconv : p.conv = some tokens) (hposition : p.state.conv = some position) :
    p.pastToken = { p with
      state := { p.state with conv := some { position with token := position.token + 1 } } } := by
  unfold pastToken
  split
  · rename_i _ found _ hfound
    rw [Option.some.inj (hposition.symm.trans hfound)]
  · rename_i hnone
    exact absurd hposition (hnone tokens position hconv)

theorem pastToken_cases (p : Player μ) :
    ∃ token position, p.pastToken =
      { p with state := { p.state with token := token, conv := position } } := by
  unfold pastToken
  split
  · exact ⟨_, _, rfl⟩
  · exact ⟨_, _, rfl⟩

/-- The token that is played next, if it is an event token. -/
def nextEvent? (p : Player μ) : Option (OpToken EventAction) :=
  p.nextToken?.bind fun t =>
    match t.kind with
    | .event op => some op
    | _ => none

/-- The action of the token that is played next, if it is an event token. -/
def nextAction? (p : Player μ) : Option EventAction :=
  p.nextToken?.bind fun t =>
    match t.kind with
    | .event op => some op.definition.action
    | _ => none

end Player

namespace Play

section Plans

variable {μ : Type} {q : Player μ} {action : EventAction}

/-- The next token is an event token with an action. -/
def Plans (action : EventAction) (q : Player μ) : Prop := q.nextAction? = some action

instance : Decidable (Plans action q) := inferInstanceAs (Decidable (q.nextAction? = some action))

theorem Plans.of_token {t : Token} {op : OpToken EventAction} (htoken : q.nextToken? = some t)
    (hkind : t.kind = .event op) : Plans op.definition.action q := by
  simp only [Plans, Player.nextAction?, htoken, Option.bind_some, hkind]

theorem Plans.token (h : Plans action q) : ∃ t op, q.nextToken? = some t ∧ t.kind = .event op ∧
    op.definition.action = action := by
  obtain ⟨t, htoken, haction⟩ := Option.bind_eq_some_iff.mp h
  split at haction
  · rename_i op hkind
    exact ⟨t, op, htoken, hkind, Option.some.inj haction⟩
  · cases haction

theorem Plans.unique (h : Plans action q) {t : Token} {op : OpToken EventAction}
    (htoken : q.nextToken? = some t) (hkind : t.kind = .event op) :
    op.definition.action = action :=
  Option.some.inj ((Plans.of_token htoken hkind).symm.trans h)

end Plans

variable {μ : Type} [MediaSource μ]

/-! ## One turn -/

/-- What playing on by one token comes down to. -/
inductive Turn (p : Player μ) : Except Fault Unit × Player μ → Prop where
  | token {t : Token} (htoken : p.nextToken? = some t) : Turn p (playToken t p.pastToken)
  | chunk (hidle : p.isIdle = true) (htoken : p.nextToken? = none) :
      Turn p (setEvent (p.state.chunk + 1) p)
  | poses (htalks : p.isIdle = false) (htoken : p.nextToken? = none)
      (hpending : p.state.choicePending = true) : Turn p (poseChoice p.outOfConversation)
  | ends (htalks : p.isIdle = false) (htoken : p.nextToken? = none)
      (hpending : p.state.choicePending = false) : Turn p (.ok (), p.outOfConversation)

theorem advance_of_idle {p : Player μ} (h : p.isIdle = true) :
    advance p =
      match p.events[p.state.token]? with
      | some t => playToken t { p with state := { p.state with token := p.state.token + 1 } }
      | none => setEvent (p.state.chunk + 1) p := by
  have hmatch : ∀ {β : Type} (conv : Option (List Token)) (position : Option ConvPosition)
      (talks : List Token → ConvPosition → β) (idles : β),
      (conv.isNone || position.isNone) = true →
      (match conv, position with
        | some tokens, some position => talks tokens position
        | _, _ => idles) = idles := by
    rintro β (_ | tokens) (_ | position) talks idles h
    · rfl
    · rfl
    · rfl
    · cases h
  rw [advance, bind_apply]
  refine (congrFun (hmatch p.conv p.state.conv _ _ h) p).trans ?_
  cases p.events[p.state.token]? with
  | some t => rfl
  | none => rfl

theorem advance_turn (p : Player μ) : Turn p (advance p) := by
  cases hidle : p.isIdle with
  | true =>
    have hnext := Player.nextToken?_of_idle hidle
    rw [advance_of_idle hidle]
    cases htoken : p.events[p.state.token]? with
    | none => exact .chunk hidle (hnext.trans htoken)
    | some t =>
      have hturn := Turn.token (hnext.trans htoken)
      rwa [Player.pastToken_of_idle hidle] at hturn
  | false =>
    obtain ⟨tokens, position, hconv, hposition⟩ := Player.isIdle_eq_false hidle
    have hnext := Player.nextToken?_of_talking hconv hposition
    rw [advance, bind_apply]
    simp only [player, hconv, hposition]
    cases htoken : tokens[position.token]? with
    | some t =>
      have hturn := Turn.token (hnext.trans htoken)
      rwa [Player.pastToken_of_talking hconv hposition] at hturn
    | none =>
      simp only
      rw [bind_apply]
      simp only [update]
      by_cases hpending : p.state.choicePending = true
      · rw [if_pos hpending]
        exact .poses hidle (hnext.trans htoken) hpending
      · rw [if_neg hpending]
        exact .ends hidle (hnext.trans htoken) (by simpa using hpending)

/-! ## The turns of calls -/

/-- The players from which a running player plays a token, in their order. -/
def turns : (budget : Nat) → Player μ → List (Player μ)
  | 0, _ => []
  | budget + 1, p =>
    if p.state.status ≠ .running then []
    else
      p :: match advance p with
        | (.ok (), p') => turns budget p'
        | (.error fault, p') =>
          if p'.options.continueOnError && fault.isPlayback then turns budget p' else []

end Play

/-- The players from which a call plays a token: only playing on does, unless it is refused. -/
def Call.turns {μ : Type} [MediaSource μ] : Call → Player μ → List (Player μ)
  | process budget, p =>
    match Play.refusal? p.options p.state with
    | some _ => []
    | none => Play.turns budget (p.withStatus .running)
  | choose _, _ => []
  | jumpBack _, _ => []

/-- The players from which calls play a token. -/
def Player.turns {μ : Type} [MediaSource μ] (p : Player μ) : List Call → List (Player μ)
  | [] => []
  | call :: calls => call.turns p ++ (call.run p).2.turns calls

namespace Play

variable {μ : Type} [MediaSource μ]

theorem turns_stands {p : Player μ} (hstatus : p.state.status ≠ .running) (budget : Nat) :
    turns (budget + 1) p = [] := by
  rw [turns]
  exact if_pos hstatus

theorem turns_succ {p : Player μ} (hrunning : p.state.status = .running) (budget : Nat) :
    turns (budget + 1) p =
      p :: match advance p with
        | (.ok (), p') => turns budget p'
        | (.error fault, p') =>
          if p'.options.continueOnError && fault.isPlayback then turns budget p' else [] := by
  rw [turns]
  exact if_neg (not_not_intro hrunning)

/-- Playing on that fails has used up its budget, or has failed at its last turn. -/
theorem playTokens_fails {budget : Nat} {p : Player μ} {fault : Fault}
    (h : (playTokens budget p).1 = .error fault) :
    fault = .exhausted ∨ ∃ q cause, (turns budget p).getLast? = some q ∧
      (advance q).1 = .error cause ∧
      ((advance q).2.options.continueOnError && cause.isPlayback) = false ∧
      fault = .at (nextPlace (advance q).2.script.name q.state) cause ∧
      (playTokens budget p).2 = (advance q).2.withStatus .error := by
  induction budget generalizing p with
  | zero => exact .inl (Except.error.inj h).symm
  | succ budget ih =>
    by_cases hrunning : p.state.status = .running
    · rw [playTokens_succ hrunning] at h ⊢
      rw [turns_succ hrunning]
      -- a later turn that is the last one of the rest is the last one of all
      have hlater : ∀ p', (playTokens budget p').1 = .error fault → fault = .exhausted ∨
          ∃ q cause, (p :: turns budget p').getLast? = some q ∧ (advance q).1 = .error cause ∧
            ((advance q).2.options.continueOnError && cause.isPlayback) = false ∧
            fault = .at (nextPlace (advance q).2.script.name q.state) cause ∧
            (playTokens budget p').2 = (advance q).2.withStatus .error := by
        intro p' h'
        rcases ih h' with hexhausted | ⟨q, cause, hlast, hq⟩
        · exact .inl hexhausted
        · exact .inr ⟨q, cause, by rw [List.getLast?_cons, hlast]; rfl, hq⟩
      rcases hrun : advance p with ⟨outcome, p'⟩
      rw [hrun] at h
      cases outcome with
      | ok _ => exact hlater p' h
      | error cause =>
        simp only at h ⊢
        by_cases hskip : (p'.options.continueOnError && cause.isPlayback) = true
        · rw [if_pos hskip] at h
          rw [if_pos hskip, if_pos hskip]
          exact hlater p' h
        · rw [if_neg hskip] at h
          rw [if_neg hskip, if_neg hskip]
          refine .inr ⟨p, cause, rfl, ?_, ?_, ?_, ?_⟩
          · rw [hrun]
          · rw [hrun]
            simpa using hskip
          · rw [hrun]
            exact (Except.error.inj h).symm
          · rw [hrun]
            rfl
    · rw [playTokens_stands hrunning] at h
      cases h

/-! ## What turns keep -/

/-- Playing on is not allowed: a choice is open, playback has ended, or it was stopped by an error
that is not skipped. -/
def Refused (p : Player μ) : Prop :=
  p.state.choicePending = true ∨ p.state.status = .ended ∨
    p.state.status = .error ∧ p.options.continueOnError = false

omit [MediaSource μ] in
theorem refusal?_of_refused {p : Player μ} (h : Refused p) :
    ∃ flaw, refusal? p.options p.state = some (.state flaw) := by
  unfold refusal?
  split
  · exact ⟨_, rfl⟩
  · split
    · exact ⟨_, rfl⟩
    · split
      · exact ⟨_, rfl⟩
      · simp_all [Refused]

omit [MediaSource μ] in
theorem refusal?_eq_some {p : Player μ} {fault : Fault}
    (h : refusal? p.options p.state = some fault) : Refused p ∧ ∃ flaw, fault = .state flaw := by
  unfold refusal? at h
  split at h
  · rename_i hpending
    exact ⟨.inl hpending, _, (Option.some.inj h).symm⟩
  · split at h
    · rename_i hended
      exact ⟨.inr (.inl hended), _, (Option.some.inj h).symm⟩
    · split at h
      · rename_i hstopped
        exact ⟨.inr (.inr hstopped), _, (Option.some.inj h).symm⟩
      · cases h

omit [MediaSource μ] in
theorem not_refused {p : Player μ} (h : refusal? p.options p.state = none) : ¬ Refused p := by
  intro hrefused
  obtain ⟨flaw, hflaw⟩ := refusal?_of_refused hrefused
  rw [h] at hflaw
  cases hflaw

/-- What has to be known of a property of players, and of what is remembered of the turns before, so
that calls keep it. -/
structure HistoryLaws {β : Type} (remember : β → Player μ → β) (P : β → Player μ → Prop) :
    Prop where
  begins : ∀ {b : β} {p : Player μ}, P b p → ¬ Refused p → P b (p.withStatus .running)
  plays : ∀ {b : β} {p : Player μ}, P b p → p.state.status = .running →
    (advance p).1 = .ok () → P (remember b p) (advance p).2
  skips : ∀ {b : β} {p : Player μ} {fault : Fault}, P b p → p.state.status = .running →
    (advance p).1 = .error fault → (advance p).2.options.continueOnError = true →
      P (remember b p) (advance p).2
  stops : ∀ {b : β} {p : Player μ} {fault : Fault}, P b p → p.state.status = .running →
    (advance p).1 = .error fault → P (remember b p) ((advance p).2.withStatus .error)
  choose : ∀ index b, Keeps (P b) (choose (μ := μ) index)

namespace HistoryLaws

variable {β : Type} {remember : β → Player μ → β} {P : β → Player μ → Prop}
  (laws : HistoryLaws remember P)
include laws

theorem playTokens {b : β} {p : Player μ} (h : P b p) (budget : Nat) :
    (∀ x ∈ remembering remember b (turns budget p), P x.1 x.2 ∧ x.2.state.status = .running) ∧
      P ((turns budget p).foldl remember b) (playTokens budget p).2 := by
  induction budget generalizing b p with
  | zero => exact ⟨List.forall_mem_nil _, h⟩
  | succ budget ih =>
    by_cases hrunning : p.state.status = .running
    · rw [playTokens_succ hrunning, turns_succ hrunning]
      -- the turn itself, and then the turns behind it
      have hgoesOn : ∀ p', P (remember b p) p' →
          (∀ x ∈ remembering remember b (p :: turns budget p'),
            P x.1 x.2 ∧ x.2.state.status = .running) ∧
          P ((p :: turns budget p').foldl remember b) (Play.playTokens budget p').2 := by
        intro p' hp'
        obtain ⟨hturns, hafter⟩ := ih hp'
        refine ⟨fun x hx => ?_, hafter⟩
        rcases List.mem_cons.mp hx with rfl | hx
        · exact ⟨h, hrunning⟩
        · exact hturns x hx
      have hplays := laws.plays h hrunning
      have hskips {fault : Fault} := @laws.skips b p fault h hrunning
      have hstops {fault : Fault} := @laws.stops b p fault h hrunning
      rcases hrun : advance p with ⟨outcome, p'⟩
      rw [hrun] at hplays hskips hstops
      cases outcome with
      | ok _ => exact hgoesOn p' (hplays rfl)
      | error fault =>
        simp only
        by_cases hskip : (p'.options.continueOnError && fault.isPlayback) = true
        · rw [if_pos hskip, if_pos hskip]
          exact hgoesOn p' (hskips rfl (Bool.and_eq_true_iff.mp hskip).1)
        · rw [if_neg hskip, if_neg hskip]
          refine ⟨fun x hx => ?_, hstops rfl⟩
          obtain rfl := List.mem_singleton.mp hx
          exact ⟨h, hrunning⟩
    · rw [playTokens_stands hrunning, turns_stands hrunning]
      exact ⟨List.forall_mem_nil _, h⟩

theorem process {b : β} {p : Player μ} (h : P b p) (budget : Nat) :
    (∀ x ∈ remembering remember b ((Call.process budget).turns p),
      P x.1 x.2 ∧ x.2.state.status = .running) ∧
      P (((Call.process budget).turns p).foldl remember b) (process budget p).2 := by
  rw [process_apply, Call.turns]
  cases hrefusal : refusal? p.options p.state with
  | some fault => exact ⟨List.forall_mem_nil _, h⟩
  | none => exact laws.playTokens (laws.begins h (not_refused hrefusal)) budget

/-- A property holds at every turn of calls and behind them. Going back has to keep it, too, if it
is among the calls. -/
theorem after {calls : List Call} (hback : ∀ index, .jumpBack index ∈ calls → ∀ b,
      Keeps (P b) (jumpBack (μ := μ) index)) {b : β} {p : Player μ} (h : P b p) :
    (∀ x ∈ remembering remember b (p.turns calls), P x.1 x.2 ∧ x.2.state.status = .running) ∧
      P ((p.turns calls).foldl remember b) (p.after calls) := by
  induction calls generalizing b p with
  | nil => exact ⟨List.forall_mem_nil _, h⟩
  | cons call calls ih =>
    have hcall : (∀ x ∈ remembering remember b (call.turns p),
          P x.1 x.2 ∧ x.2.state.status = .running) ∧
        P ((call.turns p).foldl remember b) (call.run p).2 := by
      cases call with
      | process budget =>
        rw [Call.run_process]
        exact laws.process h budget
      | choose index =>
        rw [Call.run, Call.run_of_unit]
        exact ⟨List.forall_mem_nil _, laws.choose index b p h⟩
      | jumpBack index =>
        rw [Call.run, Call.run_of_unit]
        exact ⟨List.forall_mem_nil _, hback index List.mem_cons_self b p h⟩
    obtain ⟨hturns, hafter⟩ := ih (fun index hindex => hback index (List.mem_cons_of_mem _ hindex))
      hcall.2
    rw [Player.turns, Player.after_cons, remembering_append, List.foldl_append]
    refine ⟨fun x hx => ?_, hafter⟩
    rcases List.mem_append.mp hx with hx | hx
    · exact hcall.1 x hx
    · exact hturns x hx

end HistoryLaws

/-- What has to be known of a property so that calls keep it up to a turn that is last. -/
structure RunLaws (last P : Player μ → Prop) : Prop where
  begins : ∀ {p : Player μ}, P p → ¬ Refused p → P (p.withStatus .running)
  plays : ∀ {p : Player μ}, P p → p.state.status = .running → ¬ last p →
    (advance p).1 = .ok () → P (advance p).2
  skips : ∀ {p : Player μ} {fault : Fault}, P p → p.state.status = .running →
    (advance p).1 = .error fault → (advance p).2.options.continueOnError = true → P (advance p).2
  stops : ∀ {p : Player μ} {fault : Fault}, P p → p.state.status = .running →
    (advance p).1 = .error fault → P ((advance p).2.withStatus .error)
  choose : ∀ index, Keeps P (choose (μ := μ) index)

namespace RunLaws

variable {last P : Player μ → Prop} (laws : RunLaws last P)
include laws

/-- A property is kept as long as no last turn was passed. -/
theorem history : HistoryLaws (passing last) fun passed (p : Player μ) => passed ∨ P p where
  begins h hallowed := h.imp_right fun hp => laws.begins hp hallowed
  plays := by
    rintro passed p (hpassed | hp) hrunning hok
    · exact .inl (.inl hpassed)
    · by_cases hlast : last p
      · exact .inl (.inr hlast)
      · exact .inr (laws.plays hp hrunning hlast hok)
  skips h hrunning hfault hskip := h.imp .inl fun hp => laws.skips hp hrunning hfault hskip
  stops h hrunning hfault := h.imp .inl fun hp => laws.stops hp hrunning hfault
  choose index _ p h := h.imp_right fun hp => laws.choose index p hp

/-- A property holds at every turn of calls up to the last one that it has to hold at, and behind
the calls if there was none. Going back has to keep it, too, if it is among the calls. -/
theorem after {calls : List Call} (hback : ∀ index, .jumpBack index ∈ calls →
      Keeps P (jumpBack (μ := μ) index)) {p : Player μ} (h : P p) :
    HoldsUntil last (fun q => P q ∧ q.state.status = .running) (p.turns calls) ∧
      ((∀ q ∈ p.turns calls, ¬ last q) → P (p.after calls)) := by
  obtain ⟨hturns, hafter⟩ := laws.history.after (b := False)
    (fun index hindex _ q hq => hq.imp_right fun hq => hback index hindex q hq) (.inr h)
  refine ⟨.of_remembering not_false fun x hx => ?_, fun hlasts => ?_⟩
  · obtain ⟨hheld, hrunning⟩ := hturns x hx
    exact hheld.imp_right fun hheld => ⟨hheld, hrunning⟩
  · exact hafter.resolve_left (not_foldl_passing not_false hlasts)

end RunLaws

/-- What no turn ends holds at all turns of calls and behind them. -/
theorem RunLaws.always {P : Player μ → Prop} (laws : RunLaws (fun _ => False) P)
    {calls : List Call} (hback : ∀ index, .jumpBack index ∈ calls →
      Keeps P (jumpBack (μ := μ) index)) {p : Player μ} (h : P p) :
    (∀ q ∈ p.turns calls, P q ∧ q.state.status = .running) ∧ P (p.after calls) := by
  obtain ⟨hturns, hafter⟩ := laws.after hback h
  exact ⟨hturns.forall_mem fun _ _ => id, hafter fun _ _ => id⟩

end Play

end NovelScript
