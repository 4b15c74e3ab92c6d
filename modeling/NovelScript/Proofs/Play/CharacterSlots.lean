import NovelScript.Proofs.ActiveValue.Constants
import NovelScript.Proofs.Play.Scene
import NovelScript.Proofs.Play.Turns

/-! # Slots of characters

Characters are drawn into slots and cleared from them, and in some tokens slots count from one. The
slot is then one less than the number that the operand comes to. That is the number itself less one,
as an integer, for all numbers but the least: there the difference does not fit into 64 bits, and
playback ends with nothing drawn. -/

namespace NovelScript

/-- A number, less one where slots count from one. -/
def Play.slotNumber (oneBased : Bool) (value : Int64) : Int64 := if oneBased then value - 1 else value

theorem Play.slotOf_eq (oneBased : Bool) (value : Int64) :
    slotOf oneBased value =
      if oneBased = true ∧ value = Int64.minValue then .error .overflow
      else .ok (slotNumber oneBased value) := by
  cases oneBased <;> simp [slotOf, slotNumber]

/-- The difference is taken without a carry out of 64 bits, except at the least number. -/
theorem Play.toInt_slotNumber {oneBased : Bool} {value : Int64}
    (h : ¬ (oneBased = true ∧ value = Int64.minValue)) :
    (slotNumber oneBased value).toInt = value.toInt - (if oneBased then 1 else 0) := by
  cases oneBased with
  | false => simp [slotNumber]
  | true =>
    have hone : (1 : Int64).toInt = 1 := rfl
    have hleast : Int64.minValue.toInt = -2 ^ 63 := Int64.toInt_minValue
    have hne : value.toInt ≠ Int64.minValue.toInt := fun heq => h ⟨rfl, Int64.toInt.inj heq⟩
    have hlow := value.minValue_le_toInt
    have hhigh := value.toInt_lt
    simp only [slotNumber, if_true, Int64.toInt_sub, hone]
    exact Int.bmod_eq_of_le (by omega) (by omega)

namespace EventAction

/-- The operands that name the slots that characters are drawn into or cleared from. -/
def slotPlaces : EventAction → List Nat
  | .drawCharacter _ | .clearCharacter _ => [0]
  | .drawPair => [0, 1]
  | _ => []

/-- Whether slots count from one. -/
def countsFromOne : EventAction → Bool
  | .drawCharacter oneBased | .clearCharacter oneBased => oneBased
  | .drawPair => true
  | _ => false

end EventAction

/-- The slot that a call is about. -/
def FrontendCall.slot? : FrontendCall → Option Int64
  | .displayCharacter _ slot _ _ | .clearCharacter slot _ => some slot
  | _ => none

/-- The characters on screen after a call that draws or clears one. -/
def Slots.perform (s : Slots) : FrontendCall → Slots
  | .displayCharacter name slot x _ => s.insert slot ⟨name, x⟩
  | .clearCharacter slot _ => s.erase slot
  | _ => s

namespace Play

variable {μ : Type}

/-- Calls were made, and the characters on screen changed with them. -/
structure Told (calls : List FrontendCall) (p p' : Player μ) : Prop where
  recorder : p'.recorder.calls = p.recorder.calls ++ calls
  characters : p'.state.characters = calls.foldl Slots.perform p.state.characters

theorem Told.offStage {p p' : Player μ} (h : OffStage p p') : Told [] p p' :=
  ⟨by rw [h.recorder, List.append_nil], h.characters⟩

theorem Told.trans {calls more : List FrontendCall} {p p' p'' : Player μ} (h : Told calls p p')
    (h' : Told more p' p'') : Told (calls ++ more) p p'' :=
  ⟨by rw [h'.recorder, h.recorder, List.append_assoc],
    by rw [h'.characters, h.characters, List.foldl_append]⟩

/-- An operation makes one call for each of some slots, or fails on the way. -/
def Addresses (slots : List Int64) (op : Play μ Unit) : Prop := ∀ p, ∃ calls drawn rest,
  Told calls p (op p).2 ∧ slots = drawn ++ rest ∧ calls.map FrontendCall.slot? = drawn.map some ∧
    ((op p).1 = .ok () → rest = [])

/-- What is done in front does not show. -/
theorem Addresses.after {slots : List Int64} {α : Type} {x : Play μ α} {f : α → Play μ Unit}
    (hx : ∀ p, OffStage p (x p).2) (hf : ∀ a, Addresses slots (f a)) : Addresses slots (x >>= f) := by
  intro p
  have hfirst := Told.offStage (hx p)
  rw [bind_apply]
  rcases hrun : x p with ⟨outcome, p'⟩
  rw [hrun] at hfirst
  cases outcome with
  | error fault => exact ⟨[], [], slots, hfirst, rfl, rfl, fun h => by cases h⟩
  | ok a =>
    obtain ⟨calls, drawn, rest, htold, hslots, hcalls, hok⟩ := hf a p'
    exact ⟨calls, drawn, rest, hfirst.trans htold, hslots, hcalls, hok⟩

theorem Addresses.andThen {slots more : List Int64} {x y : Play μ Unit} (hx : Addresses slots x)
    (hy : Addresses more y) : Addresses (slots ++ more) (x >>= fun _ => y) := by
  intro p
  obtain ⟨calls, drawn, rest, htold, hslots, hcalls, hok⟩ := hx p
  rw [bind_apply]
  rcases hrun : x p with ⟨outcome, p'⟩
  rw [hrun] at htold hok
  cases outcome with
  | error fault =>
    refine ⟨calls, drawn, rest ++ more, htold, ?_, hcalls, fun h => by cases h⟩
    rw [hslots, List.append_assoc]
  | ok _ =>
    obtain ⟨calls', drawn', rest', htold', hmore, hcalls', hok'⟩ := hy p'
    refine ⟨calls ++ calls', drawn ++ drawn', rest', htold.trans htold', ?_, ?_, hok'⟩
    · rw [hslots, hok rfl, List.append_nil, hmore, List.append_assoc]
    · rw [List.map_append, List.map_append, hcalls, hcalls']

theorem Addresses.clearCharacter (slot : Int64) : Addresses [slot] (clearCharacter (μ := μ) slot) :=
  fun _ => ⟨[.clearCharacter slot .fade], [slot], [], ⟨rfl, rfl⟩, rfl, rfl, fun _ => rfl⟩

variable [MediaSource μ]

theorem Addresses.drawCharacter (name : String) (slot x : Int64) :
    Addresses [slot] (drawCharacter (μ := μ) name slot x) := by
  intro p
  have hfound := Told.offStage (OffStage.findCharacter name p)
  rw [drawCharacter_apply]
  rcases hrun : findCharacter name p with ⟨outcome, p'⟩
  rw [hrun] at hfound
  cases outcome with
  | error fault => exact ⟨[], [], [slot], hfound, rfl, rfl, fun h => by cases h⟩
  | ok found =>
    have hdrawn : Told [.displayCharacter found slot x .fade] p' { p' with
        recorder := p'.recorder.record (.displayCharacter found slot x .fade)
        state := { p'.state with
          characters := p'.state.characters.insert slot ⟨found, x⟩
          status := .graphicsOp } } := ⟨rfl, rfl⟩
    exact ⟨_, [slot], [], hfound.trans hdrawn, rfl, rfl, fun _ => rfl⟩

/-- What the token does once its slots are known. -/
def slotsDone (op : OpToken EventAction) (slots : List Int64) : Play μ Unit :=
  match op.definition.action, slots with
  | .drawCharacter _, [slot] => do
    let name ← filename op 1
    let x ← number op 2
    drawCharacter name slot x
  | .clearCharacter _, [slot] => clearCharacter slot
  | .drawPair, [slot₁, slot₂] => do
    let name₁ ← filename op 2
    let name₂ ← filename op 3
    let x₁ ← number op 4
    let x₂ ← number op 5
    drawCharacter name₁ slot₁ x₁
    drawCharacter name₂ slot₂ x₂
  | _, _ => pure ()

/-- The slots of a token, in their order. -/
def slotsOf (op : OpToken EventAction) : Play μ (List Int64) :=
  op.definition.action.slotPlaces.mapM (characterSlot op op.definition.action.countsFromOne)

variable {op : OpToken EventAction}

/-- A token with slots asks for them first. -/
theorem playEvent_of_slots (h : op.definition.action.slotPlaces ≠ []) :
    playEvent (μ := μ) op = slotsOf op >>= slotsDone op := by
  unfold playEvent slotsOf
  cases haction : op.definition.action with
  | drawCharacter oneBased =>
    simp [EventAction.slotPlaces, EventAction.countsFromOne, slotsDone, haction]
  | drawPair => simp [EventAction.slotPlaces, EventAction.countsFromOne, slotsDone, haction]
  | clearCharacter oneBased =>
    simp [EventAction.slotPlaces, EventAction.countsFromOne, slotsDone, haction]
  | _ => simp [EventAction.slotPlaces, haction] at h

omit [MediaSource μ] in
theorem filename_offStage (op : OpToken EventAction) (index : Nat) (p : Player μ) :
    OffStage p (filename op index p).2 :=
  OffStage.bind (OffStage.lift _) (fun _ => OffStage.bind OffStage.refl fun _ =>
    OffStage.bind (OffStage.lift _) fun _ => OffStage.refl) p

/-- The calls are about the slots. -/
theorem slotsDone_addresses {slots : List Int64}
    (h : slots.length = op.definition.action.slotPlaces.length) :
    Addresses slots (slotsDone (μ := μ) op slots) := by
  unfold slotsDone
  cases haction : op.definition.action with
  | drawCharacter oneBased =>
    rw [haction] at h
    obtain ⟨slot, rfl⟩ := List.length_eq_one_iff.mp h
    exact .after (filename_offStage op 1) fun _ => .after (OffStage.number op 2) fun _ =>
      .drawCharacter _ _ _
  | clearCharacter oneBased =>
    rw [haction] at h
    obtain ⟨slot, rfl⟩ := List.length_eq_one_iff.mp h
    exact .clearCharacter _
  | drawPair =>
    rw [haction] at h
    obtain ⟨slot₁, slot₂, rfl⟩ := List.length_eq_two.mp h
    exact .after (filename_offStage op 2) fun _ => .after (filename_offStage op 3) fun _ =>
      .after (OffStage.number op 4) fun _ => .after (OffStage.number op 5) fun _ =>
        (Addresses.drawCharacter _ _ _).andThen (.drawCharacter _ _ _)
  | _ =>
    rw [haction] at h
    obtain rfl := List.length_eq_zero_iff.mp h
    exact fun p => ⟨[], [], [], .offStage (.refl p), rfl, rfl, fun _ => rfl⟩

section Numbers

variable (op) (oneBased : Bool) (places : List Nat)

omit [MediaSource μ]

theorem slots_offStage (p : Player μ) :
    OffStage p (places.mapM (characterSlot op oneBased) p).2 := by
  induction places generalizing p with
  | nil => exact .refl p
  | cons place places ih =>
    have hslot (p : Player μ) : OffStage p (characterSlot op oneBased place p).2 :=
      OffStage.bind (OffStage.number op place) (fun _ => OffStage.lift _) p
    rw [List.mapM_cons]
    exact OffStage.bind hslot (fun _ => OffStage.bind ih fun _ => OffStage.refl) p

theorem length_numbers {values : List Int64} {p p' : Player μ}
    (h : places.mapM (number op) p = (.ok values, p')) : values.length = places.length := by
  induction places generalizing values p with
  | nil =>
    cases h
    rfl
  | cons place places ih =>
    rw [List.mapM_cons] at h
    obtain ⟨value, q, -, h⟩ := Evaluation.bind_eq_ok h
    obtain ⟨others, q', hothers, h⟩ := Evaluation.bind_eq_ok h
    cases h
    exact congrArg (· + 1) (ih hothers)

variable {op oneBased places}

theorem characterSlot_of_number {place : Nat} {value : Int64} {p q : Player μ}
    (h : number op place p = (.ok value, q)) :
    characterSlot op oneBased place p = (slotOf oneBased value, q) := by
  rw [characterSlot, bind_apply, h]
  rfl

/-- Each number has a slot, unless it is the least and slots count from one. -/
theorem slots_of_numbers {values : List Int64} {p q : Player μ}
    (h : places.mapM (number op) p = (.ok values, q))
    (hleast : ¬ (oneBased = true ∧ Int64.minValue ∈ values)) :
    places.mapM (characterSlot op oneBased) p = (.ok (values.map (slotNumber oneBased)), q) := by
  induction places generalizing values p with
  | nil =>
    cases h
    rfl
  | cons place places ih =>
    rw [List.mapM_cons] at h ⊢
    obtain ⟨value, p', hvalue, h⟩ := Evaluation.bind_eq_ok h
    obtain ⟨others, q', hothers, h⟩ := Evaluation.bind_eq_ok h
    cases h
    have hfirst : ¬ (oneBased = true ∧ value = Int64.minValue) := fun hvalue =>
      hleast ⟨hvalue.1, List.mem_cons.mpr (.inl hvalue.2.symm)⟩
    have hrest := ih hothers fun hothers => hleast ⟨hothers.1, List.mem_cons_of_mem _ hothers.2⟩
    rw [bind_apply, characterSlot_of_number hvalue, slotOf_eq, if_neg hfirst]
    simp only [bind_apply, hrest, List.map_cons]
    rfl

/-- The first number that is the least has no slot where slots count from one. -/
theorem slots_of_least {values : List Int64} {p q : Player μ}
    (h : places.mapM (number op) p = (.ok values, q)) (hone : oneBased = true)
    (hleast : Int64.minValue ∈ values) :
    (places.mapM (characterSlot op oneBased) p).1 = .error .overflow := by
  induction places generalizing values p with
  | nil =>
    cases h
    cases hleast
  | cons place places ih =>
    rw [List.mapM_cons] at h ⊢
    obtain ⟨value, p', hvalue, h⟩ := Evaluation.bind_eq_ok h
    obtain ⟨others, q', hothers, h⟩ := Evaluation.bind_eq_ok h
    cases h
    rw [bind_apply, characterSlot_of_number hvalue, slotOf_eq]
    by_cases hfirst : value = Int64.minValue
    · rw [if_pos ⟨hone, hfirst⟩]
    · have hrest := ih hothers ((List.mem_cons.mp hleast).resolve_left (Ne.symm hfirst))
      rw [if_neg fun h => hfirst h.2]
      simp only [bind_apply]
      rcases hrun : places.mapM (characterSlot op oneBased) p' with ⟨outcome, p''⟩
      rw [hrun] at hrest
      cases hrest
      rfl

theorem slots_of_fault {fault : Fault} {p q : Player μ}
    (h : places.mapM (number op) p = (.error fault, q)) :
    ∃ fault', (places.mapM (characterSlot op oneBased) p).1 = .error fault' := by
  induction places generalizing p with
  | nil => cases h
  | cons place places ih =>
    rw [List.mapM_cons, bind_apply] at h ⊢
    rcases hvalue : number op place p with ⟨outcome, p'⟩
    rw [hvalue] at h
    cases outcome with
    | error fault' =>
      rw [characterSlot, bind_apply, hvalue]
      exact ⟨fault', rfl⟩
    | ok value =>
      rw [characterSlot_of_number hvalue]
      cases slotOf oneBased value with
      | error fault' => exact ⟨fault', rfl⟩
      | ok slot =>
        simp only [bind_apply] at h ⊢
        rcases hrun : places.mapM (number op) p' with ⟨outcome, q'⟩
        rw [hrun] at h
        cases outcome with
        | ok others => cases h
        | error fault' =>
          cases h
          obtain ⟨other, hother⟩ := ih hrun
          rcases hslots : places.mapM (characterSlot op oneBased) p' with ⟨outcome, p''⟩
          rw [hslots] at hother
          cases hother
          exact ⟨other, rfl⟩

end Numbers

/-- A token that lacks one of its slots makes no call. -/
theorem playEvent_of_no_slot (h : op.definition.action.slotPlaces ≠ []) {fault : Fault}
    {p : Player μ} (hslots : (slotsOf op p).1 = .error fault) :
    (playEvent op p).1 = .error fault ∧ Told [] p (playEvent op p).2 := by
  have hoff := Told.offStage (slots_offStage op op.definition.action.countsFromOne
    op.definition.action.slotPlaces p)
  rw [← slotsOf] at hoff
  rw [playEvent_of_slots h, bind_apply]
  rcases hrun : slotsOf op p with ⟨outcome, q⟩
  rw [hrun] at hslots hoff
  cases hslots
  exact ⟨rfl, hoff⟩

/-- A token that draws characters or clears one asks for the numbers of its slots, and makes no call
if one of them cannot be had. If slots count from one and one of the numbers is the least, playback
ends in an overflow, and no call is made either. In all other cases it makes a call for each of its
slots, in their order, until it fails, and the characters on screen change with the calls. Each call
is about the slot that is exactly the number of the operand, less one where slots count from one. -/
theorem character_slots_exact_unless_least (h : op.definition.action.slotPlaces ≠ [])
    (p : Player μ) :
    match (op.definition.action.slotPlaces.mapM (number op) p).1 with
    | .error _ => (playEvent op p).1 ≠ .ok () ∧ Told [] p (playEvent op p).2
    | .ok values =>
      (op.definition.action.countsFromOne = true ∧ Int64.minValue ∈ values →
        (playEvent op p).1 = .error .overflow ∧ Told [] p (playEvent op p).2) ∧
      (¬ (op.definition.action.countsFromOne = true ∧ Int64.minValue ∈ values) →
        ∃ calls, Told calls p (playEvent op p).2 ∧
          ((playEvent op p).1 = .ok () → calls.length = values.length) ∧
          ∀ (i : Nat) call, calls[i]? = some call → ∃ value slot,
            values[i]? = some value ∧ call.slot? = some slot ∧
              slot.toInt = value.toInt - (if op.definition.action.countsFromOne then 1 else 0)) := by
  have hoff := Told.offStage (slots_offStage op op.definition.action.countsFromOne
    op.definition.action.slotPlaces p)
  rcases hrun : op.definition.action.slotPlaces.mapM (number op) p with ⟨outcome, q⟩
  cases outcome with
  | error fault =>
    obtain ⟨fault', hslots⟩ := slots_of_fault hrun
    obtain ⟨hfault, htold⟩ := playEvent_of_no_slot h hslots
    refine ⟨fun hdone => ?_, htold⟩
    rw [hdone] at hfault
    cases hfault
  | ok values =>
    refine ⟨fun ⟨hone, hleast⟩ => ?_, fun hleast => ?_⟩
    · exact playEvent_of_no_slot h (slots_of_least hrun hone hleast)
    have hslots := slots_of_numbers hrun hleast
    have hlength : (values.map (slotNumber op.definition.action.countsFromOne)).length =
        op.definition.action.slotPlaces.length := by
      rw [List.length_map, length_numbers op _ hrun]
    rw [hslots] at hoff
    rw [playEvent_of_slots h, bind_apply, slotsOf, hslots]
    obtain ⟨calls, drawn, rest, htold, happend, hcalls, hok⟩ := slotsDone_addresses hlength q
    refine ⟨calls, hoff.trans htold, fun hdone => ?_, fun i call hcall => ?_⟩
    · have hall := congrArg List.length happend
      have hdrawn := congrArg List.length hcalls
      rw [hok hdone, List.append_nil] at hall
      simp only [List.length_map] at hall hdrawn
      omega
    · have hslot : (drawn.map some)[i]? = some call.slot? := by
        rw [← hcalls, List.getElem?_map, hcall, Option.map_some]
      rw [List.getElem?_map, Option.map_eq_some_iff] at hslot
      obtain ⟨slot, hdrawn, hslot⟩ := hslot
      have hvalue : (values.map (slotNumber op.definition.action.countsFromOne))[i]? =
          some slot := by
        obtain ⟨hi, -⟩ := List.getElem?_eq_some_iff.mp hdrawn
        rw [happend, List.getElem?_append_left hi, hdrawn]
      rw [List.getElem?_map, Option.map_eq_some_iff] at hvalue
      obtain ⟨value, hvalue, rfl⟩ := hvalue
      refine ⟨value, _, hvalue, hslot.symm, toInt_slotNumber fun hnumber => hleast ?_⟩
      exact ⟨hnumber.1, hnumber.2 ▸ List.mem_of_getElem? hvalue⟩

/-- A token asks for the slot that one shifted left by 63 stands for, counted from one. -/
theorem character_slots_exact_unless_least_shifted :
    let media := FixedMedia.scriptAndPictures "op00" [0x53, 0x43, 0x33, 0x00, 38, 0, 0, 0,
      38, 0, 0, 0, 16, 0, 0, 0, 0x10, 0x0f, 0x81, 0x00, 0x06, 0x01, 0xa0, 0x3f, 0x00, 0, 0, 0, 0, 0,
      0, 0, 0x83, 0x00, 0x00, 0x80, 0x00, 0x00, 42, 0, 0, 0, 0x41, 0x00]
    ∃ start op, (Player.new media (.new .first) .default).1 = .ok start ∧
      start.nextEvent? = some op ∧ op.definition.action.slotPlaces ≠ [] ∧
      op.definition.action.countsFromOne = true ∧
      (op.definition.action.slotPlaces.mapM (number op) start.pastToken).1 =
        .ok [Int64.minValue] ∧
      (playEvent op start.pastToken).1 = .error .overflow ∧
      Told [] start.pastToken (playEvent op start.pastToken).2 := by
  intro media
  obtain ⟨start, hstart, op, hop, hslots, hone, hvalues⟩ :
      ∃ start ∈ (Player.new media (.new .first) .default).1.toOption, ∃ op ∈ start.nextEvent?,
        op.definition.action.slotPlaces ≠ [] ∧ op.definition.action.countsFromOne = true ∧
          (op.definition.action.slotPlaces.mapM (number op) start.pastToken).1.toOption =
            some [Int64.minValue] := by
    decide +kernel
  have hnumbers := ok_of_toOption hvalues
  have htold := character_slots_exact_unless_least hslots start.pastToken
  rw [hnumbers] at htold
  obtain ⟨hfault, hcalls⟩ := htold.1 ⟨hone, List.mem_cons_self⟩
  exact ⟨start, op, ok_of_toOption hstart, hop, hslots, hone, hnumbers, hfault, hcalls⟩

end Play

end NovelScript
