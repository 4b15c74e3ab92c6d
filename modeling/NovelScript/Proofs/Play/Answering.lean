import NovelScript.Proofs.Play.Offering
import NovelScript.Proofs.Play.Writing

/-! # Answers

A choice numbers its candidates twice: as all that were offered, and as the options among them that
are displayed. It is answered with the number of an option, and what is stored is the number of the
candidate. A history of offers and picks tells both, and the well-formed choices are just those that
have one. -/

namespace NovelScript

namespace Choice

/-- What is done to a choice: a candidate is offered, or an option is picked. -/
inductive Step where
  | offer (made : Offer)
  | pick (index : Nat)
deriving DecidableEq, Repr

/-- The candidate that a step offers. -/
def Step.offer? : Step → Option Offer
  | .offer made => some made
  | .pick _ => none

/-- The choice one step on. A pick that is refused changes nothing. -/
def step (c : Choice) : Step → Choice
  | .offer made => c.add made.text made.shown
  | .pick index => (c.choose index).toOption.getD c

/-- The choice after a history of steps. -/
def after (c : Choice) (steps : List Step) : Choice := steps.foldl step c

/-- The displayed offers, each with its place among all. -/
def displayed (offers : List Offer) : List (Offer × Nat) :=
  offers.zipIdx.filter fun entry => entry.1.shown

/-- The displayed offers as options. -/
def numbered (offers : List Offer) : List ChoiceOption :=
  (displayed offers).mapIdx fun index entry => ⟨entry.1.text, index, entry.2⟩

/-! ## Two numberings -/

/-- Offers that are made later do not move those that were displayed before. -/
theorem displayed_append (offers more : List Offer) :
    displayed (offers ++ more) = displayed offers ++
      (more.zipIdx offers.length).filter fun entry => entry.1.shown := by
  rw [displayed, List.zipIdx_append, List.filter_append, Nat.zero_add]
  rfl

theorem length_numbered (offers : List Offer) :
    (numbered offers).length = (displayed offers).length := List.length_mapIdx

theorem numbered_concat (offers : List Offer) (offer : Offer) :
    numbered (offers ++ [offer]) =
      if offer.shown then
        numbered offers ++ [⟨offer.text, (numbered offers).length, offers.length⟩]
      else numbered offers := by
  rw [numbered, displayed_append, List.zipIdx_singleton, List.filter_singleton]
  cases hshown : offer.shown with
  | true =>
    simp only [cond_true, if_true]
    rw [List.mapIdx_concat, length_numbered]
    rfl
  | false =>
    simp only [cond_false, List.append_nil]
    rfl

/-- A new choice that is offered candidates has the displayed ones as its options. -/
theorem offering_new (id : Option UInt16) (offers : List Offer) :
    (new id).offering offers = ⟨id, numbered offers, offers.length, none⟩ := by
  induction offers using List.reverseRecOn with
  | nil => rfl
  | append_singleton offers offer ih =>
    rw [offering_append, ih, numbered_concat, List.length_append]
    rfl

/-! ## Histories -/

theorem after_append (c : Choice) (steps more : List Step) :
    c.after (steps ++ more) = (c.after steps).after more :=
  List.foldl_append

theorem unanswered_step (c : Choice) (s : Step) :
    (c.step s).unanswered = c.unanswered.offering s.offer?.toList := by
  cases s with
  | offer made => rfl
  | pick index =>
    cases hchoose : c.choose index with
    | error fault =>
      simp only [step, hchoose]
      rfl
    | ok answered =>
      simp only [step, hchoose]
      exact unanswered_of_choose hchoose

/-- But for its answer, a choice shows what was offered and nothing else. -/
theorem unanswered_after (c : Choice) (steps : List Step) :
    (c.after steps).unanswered = c.unanswered.offering (steps.filterMap Step.offer?) := by
  induction steps generalizing c with
  | nil => rfl
  | cons s steps ih =>
    have hrest : (c.after (s :: steps)).unanswered =
        (c.step s).unanswered.offering (steps.filterMap Step.offer?) := ih (c.step s)
    rw [hrest, unanswered_step, ← offering_append]
    cases s with
    | offer made => rfl
    | pick index => rfl

/-- A choice that began as a new one shows all its offers, numbered. -/
theorem after_new (id : Option UInt16) (steps : List Step) :
    ((new id).after steps).options = numbered (steps.filterMap Step.offer?) ∧
      ((new id).after steps).candidates = (steps.filterMap Step.offer?).length := by
  have hshown := (unanswered_after (new id) steps).trans (offering_new id _)
  exact ⟨congrArg Choice.options hshown, congrArg Choice.candidates hshown⟩

/-- An answer stays. -/
theorem chosen_after {c : Choice} {index : Nat} (h : c.chosen = some index) (steps : List Step) :
    (c.after steps).chosen = some index := by
  induction steps generalizing c with
  | nil => exact h
  | cons s steps ih =>
    refine ih (c := c.step s) ?_
    cases s with
    | offer made => exact h
    | pick other =>
      have hrefused : c.choose other = .error (.state (.alreadyAnswered index)) := by
        simp only [choose, h]
      simp only [step, hrefused]
      exact h

/-- An option can be picked if and only if it is there and the choice is not yet answered. -/
theorem choose_eq_ok_iff {c c' : Choice} {index : Nat} :
    c.choose index = .ok c' ↔
      c.isAnswered = false ∧ index < c.options.length ∧ c' = { c with chosen := some index } := by
  unfold choose isAnswered
  cases c.chosen with
  | some previous => simp
  | none =>
    by_cases hindex : index < c.options.length
    · simp [hindex, eq_comm]
    · simp [hindex]

theorem wellFormed_after {c : Choice} (h : c.WellFormed) (steps : List Step) :
    (c.after steps).WellFormed := by
  induction steps generalizing c with
  | nil => exact h
  | cons s steps ih =>
    refine ih (c := c.step s) ?_
    cases s with
    | offer made => exact h.add made.text made.shown
    | pick index =>
      cases hchoose : c.choose index with
      | error fault =>
        simp only [step, hchoose]
        exact h
      | ok answered =>
        simp only [step, hchoose]
        exact (h.choose hchoose).1

/-- Options that are numbered in their order and stand for some of the candidates come from
offers. -/
theorem exists_offers (candidates : Nat) {options : List ChoiceOption}
    (hindex : ∀ {k : Nat} {option : ChoiceOption}, options[k]? = some option → option.index = k)
    (hascending : options.Pairwise fun a b => a.candidate < b.candidate)
    (hcandidate : ∀ option ∈ options, option.candidate < candidates) :
    ∃ offers, numbered offers = options ∧ offers.length = candidates := by
  induction candidates generalizing options with
  | zero =>
    refine ⟨[], ?_, rfl⟩
    exact (List.eq_nil_iff_forall_not_mem.mpr fun option hoption =>
      absurd (hcandidate option hoption) (Nat.not_lt_zero _)).symm
  | succ candidates ih =>
    by_cases hlast : ∃ option ∈ options.getLast?, option.candidate = candidates
    · -- the last candidate is the last option
      obtain ⟨option, hoption, rfl⟩ := hlast
      obtain ⟨init, rfl⟩ := List.getLast?_eq_some_iff.mp hoption
      obtain ⟨hinit, -, hbefore⟩ := List.pairwise_append.mp hascending
      have hplaces : ∀ {k : Nat} {other : ChoiceOption}, init[k]? = some other → other.index = k := by
        intro k other hother
        obtain ⟨hk, -⟩ := List.getElem?_eq_some_iff.mp hother
        exact hindex (by rwa [List.getElem?_append_left hk])
      obtain ⟨offers, hoffers, hlength⟩ := ih hplaces hinit
        (fun other hother => hbefore other hother option (List.mem_singleton_self option))
      have hnumber : option.index = init.length := hindex List.getElem?_concat_length
      refine ⟨offers ++ [⟨option.text, true⟩], ?_, by simp [hlength]⟩
      rw [numbered_concat, hoffers, hlength, ← hnumber]
      rfl
    · -- the last candidate is hidden
      have hbelow : ∀ option ∈ options, option.candidate < candidates := by
        intro option hoption
        by_contra hlate
        have hlatest := hcandidate option hoption
        obtain ⟨before, behind, rfl⟩ := List.append_of_mem hoption
        cases behind with
        | nil => exact hlast ⟨option, List.getLast?_concat, by omega⟩
        | cons next rest =>
          have hnext := hcandidate next (by simp)
          have hless := (List.pairwise_cons.mp (List.pairwise_append.mp hascending).2.1).1 next
            List.mem_cons_self
          omega
      obtain ⟨offers, hoffers, hlength⟩ := ih hindex hascending hbelow
      refine ⟨offers ++ [⟨"", false⟩], ?_, by simp [hlength]⟩
      rw [numbered_concat, hoffers]
      rfl

/-- The well-formed choices are those that come from new ones by offers and picks. -/
theorem wellFormed_iff (c : Choice) : c.WellFormed ↔ ∃ steps, c = (new c.id).after steps := by
  constructor
  · intro h
    obtain ⟨offers, hoptions, hlength⟩ := exists_offers c.candidates h.index h.ascending h.candidate
    have hoffered : (new c.id).after (offers.map .offer) = c.unanswered := by
      have hsteps : (new c.id).after (offers.map .offer) = (new c.id).offering offers := by
        rw [after, List.foldl_map]
        rfl
      rw [hsteps, offering_new, hoptions, hlength]
      rfl
    cases hchosen : c.chosen with
    | none =>
      refine ⟨offers.map .offer, ?_⟩
      rw [hoffered, unanswered, ← hchosen]
    | some index =>
      refine ⟨offers.map .offer ++ [.pick index], ?_⟩
      have hpicked : c.unanswered.choose index = .ok c := by
        refine choose_eq_ok_iff.mpr ⟨rfl, h.answer index hchosen, ?_⟩
        rw [unanswered, ← hchosen]
      have hstep : c.unanswered.after [.pick index] =
          (c.unanswered.choose index).toOption.getD c.unanswered := rfl
      rw [after_append, hoffered, hstep, hpicked]
      rfl
  · rintro ⟨steps, hsteps⟩
    rw [hsteps]
    exact wellFormed_after (wellFormed_new c.id) steps

/-- The result of a choice is the place of the candidate that its answer stands for. -/
theorem result_eq_ok_iff {id : Option UInt16} {steps : List Step} {position : Nat} :
    ((new id).after steps).result = .ok position ↔
      ∃ index offer, ((new id).after steps).chosen = some index ∧
        (displayed (steps.filterMap Step.offer?))[index]? = some (offer, position) := by
  have hoption (index : Nat) : ((new id).after steps).options[index]? =
      (displayed (steps.filterMap Step.offer?))[index]?.map fun entry =>
        ⟨entry.1.text, index, entry.2⟩ := by
    rw [(after_new id steps).1, numbered, List.getElem?_mapIdx]
  unfold result answer?
  cases ((new id).after steps).chosen with
  | none => simp
  | some index =>
    rw [Option.bind_some, hoption]
    cases hplace : (displayed (steps.filterMap Step.offer?))[index]? with
    | none => simp [hplace]
    | some entry => simp [hplace, Prod.ext_iff]

/-- The answer of an option that was picked is the place of its candidate among all, whatever is
done to the choice after that. -/
theorem result_after {id : Option UInt16} {steps : List Step} {index : Nat} {c : Choice}
    (h : ((new id).after steps).choose index = .ok c) (more : List Step) :
    ∃ offer position, (displayed (steps.filterMap Step.offer?))[index]? = some (offer, position) ∧
      (c.after more).result = .ok position := by
  obtain ⟨-, hindex, hc⟩ := choose_eq_ok_iff.mp h
  rw [(after_new id steps).1, length_numbered] at hindex
  have hhistory : c.after more = (new id).after (steps ++ .pick index :: more) := by
    have hpick : ((new id).after steps).step (.pick index) = c := by
      simp only [step, h]
      rfl
    rw [after_append, ← hpick]
    rfl
  have hchosen : (c.after more).chosen = some index := chosen_after (by rw [hc]) more
  obtain ⟨⟨offer, position⟩, hplace⟩ : ∃ entry,
      (displayed (steps.filterMap Step.offer?))[index]? = some entry :=
    ⟨_, List.getElem?_eq_getElem hindex⟩
  refine ⟨offer, position, hplace, ?_⟩
  rw [hhistory] at hchosen ⊢
  refine result_eq_ok_iff.mpr ⟨index, offer, hchosen, ?_⟩
  rw [List.filterMap_append, displayed_append, List.getElem?_append_left hindex, hplace]

end Choice

namespace Play

variable {μ : Type}

/-! ## Storing an answer -/

/-- A pick that is refused leaves the player as it is. -/
theorem choose_refused {index : Nat} {p : Player μ} {fault : Fault}
    (h : (choose index p).1 = .error fault) : (choose index p).2 = p := by
  rcases choose_answers index p with hsame | ⟨choice, answered, hchoice, hchoose, -⟩
  · exact hsame
  · rw [choose_apply, hchoice] at h
    simp only [hchoose] at h
    cases h

/-- Memory and the choice are the same in another player. -/
def OnlyRead (p p' : Player μ) : Prop :=
  p'.state.memory = p.state.memory ∧ p'.state.choice = p.state.choice

/-- A number that an operand has is found without a change of memory. -/
theorem onlyRead_number {α : Type} {op : OpToken α} {index : Nat} {p q : Player μ}
    {value : Int64} (h : number op index p = (.ok value, q)) : OnlyRead p q := by
  have hmemory := Spares.number op index p
  have hchoice := (OffStage.number op index p).choice
  rw [h] at hmemory hchoice
  refine ⟨?_, hchoice⟩
  rcases hmemory with hsame | ⟨v, -, address, content, hslipped⟩
  · exact hsame
  · cases hslipped.refused

theorem takeChoice_ok {p q : Player μ} {c : Choice} (h : takeChoice p = (.ok c, q)) :
    p.state.choice = some c ∧ q = { p with state := { p.state with choice := none } } := by
  rw [takeChoice, bind_apply] at h
  simp only [state] at h
  cases hchoice : p.state.choice with
  | none =>
    rw [hchoice] at h
    cases h
  | some choice =>
    simp only [hchoice] at h
    split at h
    · cases h
      exact ⟨rfl, rfl⟩
    · cases h

/-- Going on behind either of two operations, of which one has succeeded. -/
theorem ok_of_joining {α β : Type} {condition : Prop} [Decidable condition] {x y : Play μ α}
    {k : α → Play μ β} {p p' : Player μ} {b : β}
    (h : (if condition then x >>= k else y >>= k) p = (.ok b, p')) :
    ∃ a q, (x p = (.ok a, q) ∨ y p = (.ok a, q)) ∧ k a q = (.ok b, p') := by
  by_cases hcondition : condition
  · rw [if_pos hcondition] at h
    obtain ⟨a, q, hx, hk⟩ := Evaluation.bind_eq_ok h
    exact ⟨a, q, .inl hx, hk⟩
  · rw [if_neg hcondition] at h
    obtain ⟨a, q, hy, hk⟩ := Evaluation.bind_eq_ok h
    exact ⟨a, q, .inr hy, hk⟩

theorem puts_writeCell {address content : Int64} {p p' : Player μ}
    (h : evaluating (Evaluation.writeCell address content) p = (.ok (), p')) :
    Puts address content p.state.memory p'.state.memory ∧ p'.state.choice = p.state.choice := by
  simp only [evaluating, Evaluation.writeCell, ValueContext.writeCell, PlayState.writeCell] at h
  rcases PlayState.cell_cases address with ⟨i, hi, hplace, hcell⟩ | ⟨flaw, hcell⟩
  · rw [hcell] at h
    cases h
    exact ⟨⟨i, hi, hplace, rfl⟩, rfl⟩
  · rw [hcell] at h
    cases h

/-- Storing an answer that succeeds puts the result of the choice into a cell and takes the choice
away. -/
theorem storeChoice_ok {op : OpToken EventAction} {checkId : Bool} {p p' : Player μ}
    (h : storeChoice op checkId p = (.ok (), p')) :
    ∃ address c answer, (number op 0 p).1 = .ok address ∧ p.state.choice = some c ∧
      c.result = .ok answer ∧
      Puts address (Int64.ofNat answer) p.state.memory p'.state.memory ∧
      p'.state.choice = none := by
  rw [storeChoice] at h
  obtain ⟨address, q, haddress, h⟩ := Evaluation.bind_eq_ok h
  obtain ⟨hmemory, hchoice⟩ := onlyRead_number haddress
  have hnumber : (number op 0 p).1 = .ok address := congrArg Prod.fst haddress
  obtain ⟨expected, q', hid, h⟩ := ok_of_joining h
  obtain ⟨hmemory', hchoice'⟩ : OnlyRead q q' := by
    rcases hid with hid | hnone
    · rw [map_eq_pure_bind] at hid
      obtain ⟨id, r, hid, hpure⟩ := Evaluation.bind_eq_ok hid
      cases hpure
      exact onlyRead_number hid
    · cases hnone
      exact ⟨rfl, rfl⟩
  obtain ⟨asked, r, hplayer, h⟩ := Evaluation.bind_eq_ok h
  cases hplayer
  split at h
  · cases h
  obtain ⟨c, r, htake, h⟩ := Evaluation.bind_eq_ok h
  obtain ⟨hc, hr⟩ := takeChoice_ok htake
  have hstores : (lift c.result >>= fun answer =>
      evaluating (Evaluation.writeCell address (Int64.ofNat answer))) r = (.ok (), p') := by
    cases expected with
    | none => exact h
    | some id =>
      simp only at h
      split at h
      · obtain ⟨_, _, hfail, _⟩ := Evaluation.bind_eq_ok h
        cases hfail
      · exact h
  obtain ⟨answer, r', hresult, hwrite⟩ := Evaluation.bind_eq_ok hstores
  have hanswer : c.result = .ok answer := congrArg Prod.fst hresult
  obtain rfl : r = r' := congrArg Prod.snd hresult
  obtain ⟨hputs, htaken⟩ := puts_writeCell hwrite
  subst hr
  have hread : q'.state.memory = p.state.memory := hmemory'.trans hmemory
  refine ⟨address, c, answer, hnumber, ?_, hanswer, hread ▸ hputs, htaken⟩
  rw [← hc, hchoice', hchoice]

variable [MediaSource μ]

/-- A well-formed player with all memory cells. -/
def Whole (p : Player μ) : Prop := p.WellFormed ∧ p.Complete

theorem Whole.advance {p : Player μ} (h : Whole p) (hrunning : p.state.status = .running) :
    Whole (advance p).2 :=
  ⟨(h.1.advance hrunning).1, Player.Complete.stageLaws.advance h.1.toLoaded h.2⟩

theorem Whole.jumpBack (index : Nat) : Keeps Whole (jumpBack (μ := μ) index) := fun p h =>
  ⟨Player.WellFormed.jumpBack index p h.1,
    (Intact.jumpBack index p ⟨h.1.toLoaded, h.2⟩).toComplete⟩

/-- Whatever calls are made, a player stays whole at every turn of theirs. -/
theorem wholeLaws : RunLaws (μ := μ) (fun _ => False) Whole where
  begins h _ := ⟨h.1.setStatus (by decide), h.2.keep rfl rfl⟩
  plays h hrunning _ _ := h.advance hrunning
  skips h hrunning _ _ := h.advance hrunning
  stops h hrunning _ :=
    ⟨(h.advance hrunning).1.setStatus (by decide), (h.advance hrunning).2.keep rfl rfl⟩
  choose index p h := ⟨Player.WellFormed.choose index p h.1,
    (Intact.choose index p ⟨h.1.toLoaded, h.2⟩).toComplete⟩

/-- Whatever is offered and picked, the options of a choice are the displayed candidates in their
order, each with its place among all; the first pick of an option that is there answers the choice,
and its result is the place of that candidate from then on. A pick that is refused leaves a player
as it is. A token that stores an answer and succeeds puts the place into the cell of its address,
changes no other cell and takes the choice away. And players that come from new ones by calls have
all their cells, and choices of this kind only, at every turn. -/
theorem stored_answer_is_place :
    (∀ (id : Option UInt16) (steps : List Choice.Step),
      let offers := steps.filterMap Choice.Step.offer?
      let c := (Choice.new id).after steps
      c.options = (Choice.displayed offers).mapIdx
          (fun index entry => ⟨entry.1.text, index, entry.2⟩) ∧
        c.candidates = offers.length ∧
        (∀ index, (∃ c', c.choose index = .ok c') ↔
          c.isAnswered = false ∧ index < (Choice.displayed offers).length) ∧
        ∀ index c', c.choose index = .ok c' → ∀ more, ∃ offer position,
          (Choice.displayed offers)[index]? = some (offer, position) ∧
            (c'.after more).result = .ok position) ∧
    (∀ (p : Player μ) index fault, (choose index p).1 = .error fault → (choose index p).2 = p) ∧
    (∀ (p : Player μ) (op : OpToken EventAction) checkId id (steps : List Choice.Step),
      op.definition.action = .choiceStore checkId →
      p.state.choice = some ((Choice.new id).after steps) → (playEvent op p).1 = .ok () →
        ∃ address index offer position, (number op 0 p).1 = .ok address ∧
          ((Choice.new id).after steps).chosen = some index ∧
          (Choice.displayed (steps.filterMap Choice.Step.offer?))[index]? =
            some (offer, position) ∧
          Puts address (Int64.ofNat position) p.state.memory (playEvent op p).2.state.memory ∧
          (playEvent op p).2.state.choice = none) ∧
    ∀ {media : μ} {recorder : Recorder} {options : RuntimeOptions} {start : Player μ},
      (Player.new media recorder options).1 = .ok start → ∀ calls, ∀ q ∈ start.turns calls,
        q.pastToken.state.memory.size = memoryCells ∧
          ∀ c ∈ q.pastToken.state.choice, ∃ steps, c = (Choice.new c.id).after steps := by
  refine ⟨fun id steps => ?_, fun p index fault => choose_refused, ?_, ?_⟩
  · obtain ⟨hoptions, hcandidates⟩ := Choice.after_new id steps
    refine ⟨hoptions, hcandidates, fun index => ?_, fun index c' hchoose => ?_⟩
    · rw [← Choice.length_numbered, ← hoptions]
      constructor
      · rintro ⟨c', hchoose⟩
        obtain ⟨hopen, hindex, -⟩ := Choice.choose_eq_ok_iff.mp hchoose
        exact ⟨hopen, hindex⟩
      · rintro ⟨hopen, hindex⟩
        exact ⟨_, Choice.choose_eq_ok_iff.mpr ⟨hopen, hindex, rfl⟩⟩
    · exact Choice.result_after hchoose
  · intro p op checkId id steps haction hchoice hok
    have hplay : playEvent op p = storeChoice op checkId p := by
      simp only [playEvent, haction]
    rw [hplay] at hok ⊢
    rcases hrun : storeChoice op checkId p with ⟨outcome, p'⟩
    obtain rfl : outcome = .ok () := by rwa [hrun] at hok
    obtain ⟨address, c, position, haddress, hc, hresult, hputs, htaken⟩ := storeChoice_ok hrun
    obtain rfl := Option.some.inj (hchoice.symm.trans hc)
    obtain ⟨index, offer, hchosen, hplace⟩ := Choice.result_eq_ok_iff.mp hresult
    exact ⟨address, index, offer, position, haddress, hchosen, hplace, hputs, htaken⟩
  · intro media recorder options start hnew calls q hq
    have hback : ∀ index, .jumpBack index ∈ calls → Keeps Whole (jumpBack (μ := μ) index) :=
      fun index _ => Whole.jumpBack index
    have hstart : Whole start := ⟨.new hnew, (Intact.new hnew).toComplete⟩
    obtain ⟨⟨hwell, hcomplete⟩, -⟩ := (wholeLaws.always hback hstart).1 q hq
    obtain ⟨token, position, hpast⟩ := q.pastToken_cases
    rw [hpast]
    exact ⟨hcomplete.state, fun c hc => (Choice.wellFormed_iff c).mp (hwell.state.choice c hc)⟩

/-- The last of three options is picked, which is the fourth of five candidates. -/
theorem stored_answer_is_place_fourth :
    let media := FixedMedia.onlyScript "op00" [0x53, 0x43, 0x33, 0x00, 29, 0, 0, 0, 33, 0, 0, 0,
      16, 0, 0, 0, 0xff, 0, 0, 0x10, 0x1a, 0x85, 0, 0, 0x85, 0, 0, 0x00, 0x06, 33, 0, 0, 0,
      0x0b, 0, 5, 0, 0x0b, 1, 0x41, 1, 0x0b, 1, 0x42, 1, 0x0b, 2, 0x80, 0, 0, 0x43, 1,
      0x0b, 1, 0x44, 1, 0x0b, 2, 0x80, 0, 0, 0x45, 1]
    let steps : List Choice.Step := [.offer ⟨"A", true⟩, .offer ⟨"B", true⟩, .offer ⟨"C", false⟩,
      .offer ⟨"D", true⟩, .offer ⟨"E", false⟩, .pick 2]
    ∃ start q op, (Player.new media (.new .last) .default).1 = .ok start ∧
      q ∈ start.turns [.process 30, .process 30] ∧ q.nextEvent? = some op ∧
      q.pastToken.state.choice = some ((Choice.new (some 5)).after steps) ∧
      Puts 5 3 q.pastToken.state.memory (playEvent op q.pastToken).2.state.memory ∧
      (playEvent op q.pastToken).2.state.choice = none := by
  intro media steps
  obtain ⟨start, hstart, q, hq, op, hop, haction, hchoice, haddress, hdone⟩ :
      ∃ start ∈ (Player.new media (.new .last) .default).1.toOption,
        ∃ q ∈ start.turns [.process 30, .process 30], ∃ op ∈ q.nextEvent?,
          op.definition.action = .choiceStore true ∧
            q.pastToken.state.choice = some ((Choice.new (some 5)).after steps) ∧
            (number op 0 q.pastToken).1.toOption = some 5 ∧
            (playEvent op q.pastToken).1.toOption = some () := by
    decide +kernel
  obtain ⟨address, index, offer, position, hnumber, hchosen, hplace, hputs, htaken⟩ :=
    stored_answer_is_place.2.2.1 q.pastToken op true (some 5) steps haction hchoice
      (ok_of_toOption hdone)
  obtain rfl : 5 = address := Except.ok.inj ((ok_of_toOption haddress).symm.trans hnumber)
  obtain rfl : 2 = index := Option.some.inj hchosen
  obtain rfl : 3 = position := congrArg Prod.snd (Option.some.inj hplace)
  exact ⟨start, q, op, ok_of_toOption hstart, hq, hop, hchoice, hputs, htaken⟩

end Play

end NovelScript
