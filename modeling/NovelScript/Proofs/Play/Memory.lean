import NovelScript.Proofs.Play.WellFormed
import NovelScript.Proofs.Save.RoundTrip

/-! # Memory cells

Addresses are checked against the number of cells that a new state has, not against the memory that
is accessed. The check is enough for states with all their cells: these are the states of new
players, and no call takes a cell away. A save file says itself how many cells its state has, and a
file that says fewer is read and resumed like any other. -/

namespace NovelScript

namespace PlayState

/-- At every address there is a cell to read and to write, or both are refused as an evaluation that
went wrong. -/
def Guarded (s : PlayState) : Prop :=
  ∀ address value : Int64,
    (∃ i, ∃ h : i < s.memory.size, address.toInt = i ∧ s.readCell address = .ok s.memory[i] ∧
      s.writeCell address value = .ok { s with memory := s.memory.set i value h }) ∨
    ∃ flaw, s.readCell address = .error (.evaluation flaw) ∧
      s.writeCell address value = .error (.evaluation flaw)

theorem cell_cases (address : Int64) :
    (∃ i < memoryCells, address.toInt = i ∧ cell address = .ok i) ∨
      ∃ flaw, cell address = .error (.evaluation flaw) := by
  unfold cell
  split
  · rename_i hrange
    exact .inl ⟨address.toInt.toNat, by omega, by omega, rfl⟩
  · exact .inr ⟨_, rfl⟩

/-- Accesses stay inside memory if and only if it has all cells that pass the check. -/
theorem guarded_iff (s : PlayState) : s.Guarded ↔ memoryCells ≤ s.memory.size := by
  constructor
  · intro h
    have hlast : (2047 : Int64).toInt = 2047 := by decide
    have hcell : cell 2047 = .ok 2047 := rfl
    rcases h 2047 0 with ⟨i, hi, hplace, -, -⟩ | ⟨flaw, hread, -⟩
    · rw [memoryCells]
      omega
    · rw [readCell, hcell] at hread
      cases hread
  · intro h address value
    rcases cell_cases address with ⟨i, hi, hplace, hcell⟩ | ⟨flaw, hcell⟩
    · have hinside : i < s.memory.size := Nat.lt_of_lt_of_le hi h
      refine .inl ⟨i, hinside, hplace, ?_, ?_⟩
      · rw [readCell, hcell]
        simp [Except.map, hinside]
      · rw [writeCell, hcell]
        simp [Except.map, Array.setIfInBounds, hinside]
    · exact .inr ⟨flaw, by rw [readCell, hcell]; rfl, by rw [writeCell, hcell]; rfl⟩

end PlayState

/-- All memory cells are there, now and in every state to go back to. -/
structure Player.Complete {μ : Type} (p : Player μ) : Prop where
  state : p.state.memory.size = memoryCells
  backlog : ∀ entry ∈ p.backlog, entry.state.memory.size = memoryCells

namespace Player.Complete

open Play

variable {μ : Type} {p p' : Player μ}

theorem keep (h : p.Complete) (hcells : p'.state.memory.size = p.state.memory.size)
    (hbacklog : p'.backlog = p.backlog) : p'.Complete :=
  ⟨hcells.trans h.state, hbacklog ▸ h.backlog⟩

theorem same (hsame : SameStage p p') (h : p.Complete) : p'.Complete :=
  h.keep hsame.cells hsame.backlog

theorem log (h : p.Complete) {entry : BacklogEntry} (hentry : entry.state.memory.size = memoryCells) :
    Player.Complete { p with backlog := p.backlog ++ [entry] } where
  state := h.state
  backlog := by
    intro other hother
    rcases List.mem_append.mp hother with hother | hother
    · exact h.backlog other hother
    · rw [List.mem_singleton.mp hother]
      exact hentry

/-! ## Playing on -/

theorem onChoice {α : Type} {op : Play μ α} (h : OnChoice op) : Keeps Player.Complete op := by
  intro p hp
  obtain ⟨choice, hrun, -⟩ := h p
  rw [hrun]
  exact hp.keep rfl rfl

theorem shows (h : p.Complete) (hshows : Shows p p') : p'.Complete := by
  cases hshows
  exact h.keep rfl rfl

theorem poseChoice : Keeps Player.Complete (poseChoice (μ := μ)) := by
  intro p hp
  cases hchoice : p.state.choice with
  | none =>
    rw [Play.poseChoice, bind_apply]
    simp only [Play.state, hchoice]
    exact hp
  | some choice =>
    rw [poseChoice_apply hchoice]
    split
    · exact hp.keep rfl rfl
    · have hentry : (⟨.choice choice, { p.state with status := .choice }⟩ :
          BacklogEntry).state.memory.size = memoryCells := hp.state
      exact (hp.log hentry).keep rfl rfl

variable [MediaSource μ]

theorem onStage : OnStage (μ := μ) (Keeps Player.Complete) where
  toOnScreen := .of_shows fun h p hp => hp.shows (h p)
  await _ hp := hp.keep rfl rfl
  unfadeTextbox time p hp := hp.shows (.unfadeTextbox time p)
  openChoice id := onChoice (onChoice_openChoice id)
  addCandidate text display := onChoice (onChoice_addCandidate text display)
  takeChoice := onChoice onChoice_takeChoice

/-- A block of text is logged with the cells of the state it is shown in. -/
theorem newTextblock (lines : List String) (voice : Option String) :
    Keeps Player.Complete (newTextblock (μ := μ) lines voice) := by
  intro p hp
  obtain ⟨fault, media, hrun⟩ | ⟨media, q, hq, hrun⟩ := newTextblock_cases lines voice p
  · rw [hrun]
    exact hp.keep rfl rfl
  · have hstarts : Player.Complete { p with
        media := media
        recorder := p.recorder.record (.textblock lines voice) } := hp.keep rfl rfl
    have hshown : q.Complete := hq ▸ hstarts.shows (.unfadeTextbox .fade _)
    rw [hrun]
    exact hshown.log hshown.state

theorem stageLaws : StageLaws (μ := μ) Player.Complete Player.Complete where
  same := same
  onStage := onStage
  done := id
  newTextblock lines voice hp _ := newTextblock lines voice _ hp
  poseChoice hp _ _ := poseChoice _ hp

end Player.Complete

namespace Play

variable {μ : Type}

/-! ## Calls -/

/-- A player whose token lists are loaded and whose memory cells are all there. -/
structure Intact (p : Player μ) : Prop extends Loaded p, p.Complete

theorem Intact.choose (index : Nat) : Keeps Intact (choose (μ := μ) index) := by
  intro p hp
  obtain ⟨choice, hrun⟩ := choose_snd index p
  rw [hrun]
  exact ⟨⟨hp.conv, hp.events⟩, hp.toComplete.keep rfl rfl⟩

/-- A player that resumes at a state with all cells, with what is left of its backlog. -/
theorem Intact.resumed {p : Player μ} (h : Intact p) {s : PlayState}
    (hs : s.memory.size = memoryCells) {q : Player μ} (hq : Resumed p s q)
    {backlog : List BacklogEntry} (hbacklog : backlog ⊆ q.backlog) (media : μ)
    (recorder : Recorder) :
    Intact { q with media := media, recorder := recorder, backlog := backlog } where
  conv := hq.loaded.conv
  events := hq.loaded.events
  state := hq.state ▸ hs
  backlog := by
    rw [hq.backlog] at hbacklog
    exact fun entry hentry => h.backlog entry (hbacklog hentry)

variable [MediaSource μ]

theorem Intact.process (budget : Nat) : Keeps Intact (process (μ := μ) budget) := by
  refine process_keeps (fun h _ => ?_) (fun h _ => ?_) budget
  · exact ⟨⟨h.conv, h.events⟩, h.toComplete.keep rfl rfl⟩
  · exact ⟨h.toLoaded.advance, Player.Complete.stageLaws.advance h.toLoaded h.toComplete⟩

theorem Intact.jumpBack (index : Nat) : Keeps Intact (jumpBack (μ := μ) index) := by
  intro p hp
  have hback := jumpBack_goesBack index p
  generalize Play.jumpBack index p = run at hback ⊢
  cases hback with
  | refused fault media => exact ⟨⟨hp.conv, hp.events⟩, hp.toComplete.keep rfl rfl⟩
  | undrawn hentry hq fault media calls =>
    have hs := hp.backlog _ (List.mem_of_getElem? hentry)
    exact hp.resumed hs hq (List.Subset.refl _) media _
  | text hentry hitem hq media =>
    have hs := hp.backlog _ (List.mem_of_getElem? hentry)
    have hresumed := hp.resumed hs hq (List.take_subset (index + 1) _)
    rw [showTextblock_apply]
    split
    · exact hresumed _ _
    · split
      · exact hresumed _ _
      · exact hresumed _ _
  | @choice entry hentry choice hitem q hq media =>
    have hs := hp.backlog _ (List.mem_of_getElem? hentry)
    have hresumed := hp.resumed hs hq (List.take_subset (index + 1) _) media
      ((withMediaAndCalls q media entry.state.redrawn).recorder.pose choice).2
    exact ⟨⟨hresumed.conv, hresumed.events⟩, hresumed.toComplete.keep rfl rfl⟩

theorem Intact.restore {s : PlayState} (hs : s.memory.size = memoryCells) :
    Keeps Intact (restore (μ := μ) s) := by
  intro p hp
  obtain ⟨fault, media, hrestore⟩ | ⟨q, hq, hrestore⟩ := restore_cases s p
  · rw [hrestore]
    exact ⟨⟨hp.conv, hp.events⟩, hp.toComplete.keep rfl rfl⟩
  · obtain ⟨media, told, hplayer, -⟩ := Makes.redraw q
    rw [hrestore, hplayer]
    exact hp.resumed hs hq (List.Subset.refl _) media _

theorem Intact.new {media : μ} {recorder : Recorder} {options : RuntimeOptions} {p : Player μ}
    (h : (Player.new media recorder options).1 = .ok p) : Intact p := by
  obtain ⟨hloaded, _, hbacklog, hstate⟩ := new_spec h
  refine ⟨hloaded, ⟨?_, ?_⟩⟩
  · rw [hstate]
    exact Array.size_replicate
  · rw [hbacklog]
    rintro entry ⟨⟩

/-- Restoring that succeeds leaves the state as it was given. -/
theorem restore_state {s : PlayState} {p : Player μ} (h : (restore s p).1 = .ok ()) :
    (restore s p).2.state = s := by
  obtain ⟨fault, media, hrestore⟩ | ⟨q, hq, hrestore⟩ := restore_cases s p
  · rw [hrestore] at h
    cases h
  · obtain ⟨media, told, hplayer, -⟩ := Makes.redraw q
    rw [hrestore, hplayer]
    exact hq.state

/-- Players that new ones become by calls and by restoring states with all memory cells. -/
inductive Continued : Player μ → Prop where
  | new {media : μ} {recorder : Recorder} {options : RuntimeOptions} {p : Player μ}
      (h : (Player.new media recorder options).1 = .ok p) : Continued p
  | call {p : Player μ} (h : Continued p) (call : Call) : Continued (call.run p).2
  | restore {p : Player μ} (h : Continued p) {s : PlayState}
      (hs : s.memory.size = memoryCells) : Continued (restore s p).2

theorem Continued.intact {p : Player μ} (h : Continued p) : Intact p := by
  induction h with
  | new h => exact .new h
  | call _ call ih => exact after_keeps Intact.process Intact.choose Intact.jumpBack ih [call]
  | restore _ hs ih => exact Intact.restore hs _ ih

/-- Players that come from new ones have all memory cells, so that no access leaves memory, as long
as every state that they resume has them. A save file that is read and resumed at such a player gives
a player with all cells if and only if its own state has them, and accesses may leave memory if and
only if it has fewer. -/
theorem resumed_complete_iff {p : Player μ} (hp : Continued p) :
    p.Complete ∧ p.state.Guarded ∧
    ∀ {file : Bytes} {save : SaveData}, SaveData.ofBinary file = .ok save →
      (restore save.state p).1 = .ok () →
        ((restore save.state p).2.Complete ↔ save.state.memory.size = memoryCells) ∧
        ((restore save.state p).2.state.Guarded ↔ memoryCells ≤ save.state.memory.size) := by
  have hintact := hp.intact
  refine ⟨hintact.toComplete, (PlayState.guarded_iff _).mpr (Nat.le_of_eq hintact.state.symm), ?_⟩
  intro file save _ hrestore
  have hstate := restore_state hrestore
  constructor
  · constructor
    · intro h
      rw [← hstate]
      exact h.state
    · intro hs
      exact (Intact.restore hs p hintact).toComplete
  · rw [hstate]
    exact PlayState.guarded_iff _

/-- The file of a save whose state has no memory cells at all. -/
theorem resumed_without_cells :
    let media := FixedMedia.onlyScript "op00" [0x53, 0x43, 0x33, 0x00, 18, 0, 0, 0, 18, 0, 0, 0,
      16, 0, 0, 0, 0x00, 0x06]
    let save : SaveData := ⟨⟨List.replicate 32 7, by decide⟩, { PlayState.new "op00" 0 with
      memory := #[] }, 0⟩
    ∃ start file, (Player.new media (.new .first) .default).1 = .ok start ∧
      SaveData.ofBinary file = .ok save ∧ (restore save.state start).1 = .ok () ∧
      start.Complete ∧ ¬ (restore save.state start).2.Complete ∧
      ¬ (restore save.state start).2.state.Guarded := by
  intro media save
  obtain ⟨start, hstart, hrestored⟩ :
      ∃ start ∈ (Player.new media (.new .first) .default).1.toOption,
        (restore save.state start).1.toOption = some () := by
    decide +kernel
  have hnew := ok_of_toOption hstart
  have hrestore := ok_of_toOption hrestored
  have hrange : save.InRange :=
    ⟨⟨by decide, by decide, nofun, nofun, nofun, nofun, nofun⟩, by decide⟩
  have hcode : SaveData.codec.encode save ≠ [] := by decide +kernel
  have hlength : (SaveData.codec.encode save).length < UInt32.size := by decide +kernel
  have hread := SaveData.reads_save hrange (Nat.lt_trans hlength (by decide)) []
  rw [List.append_nil] at hread
  have hfile := SaveData.ofBinary_of_header hcode hlength
  rw [hread] at hfile
  obtain ⟨hcomplete, -, hresumed⟩ := resumed_complete_iff (.new hnew)
  obtain ⟨hall, hguarded⟩ := hresumed hfile hrestore
  refine ⟨start, _, hnew, hfile, hrestore, hcomplete, ?_, ?_⟩
  · rw [hall]
    decide
  · rw [hguarded]
    decide

end Play

end NovelScript
