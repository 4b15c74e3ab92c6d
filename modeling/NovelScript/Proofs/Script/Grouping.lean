import NovelScript.Proofs.Script.Blocks

/-! # Grouping keeps the text

The blocks of either title show all text of a conversation, line by line, and leave every token that
does not belong to text as it is. Only a second voice in one block is a fault. -/

namespace NovelScript

open Textblock

namespace Title

variable {title : Title} {t : Token}

/-! What opens a block and is dropped from its lines, what starts one as its first member, and what
continues it. The title without voice tokens has no openers: only text starts a block of it. -/

theorem opens_iff : title.grouping.opens t = true ↔ title = .ever17 ∧
    (t.convAction? = some .linefeed ∨ t.convAction? = some .blockPrefix ∨
      t.convAction? = some .section) := by
  cases title <;> simp [grouping]

theorem starts_iff : title.grouping.starts t = true ↔
    t.isText = true ∨ title = .ever17 ∧ t.convAction? = some .voice := by
  cases title <;> simp [grouping]

theorem continues_iff : title.grouping.continues t = true ↔
    t.isText = true ∨ t.convAction? = some .linefeed ∨ t.convAction? = some .textAux ∨
      title = .ever17 ∧ (t.convAction? = some .blockPrefix ∨ t.convAction? = some .voice) := by
  cases title with
  | ever17 =>
    simp only [grouping, decide_eq_true_eq, true_and]
    tauto
  | never7 => simp [grouping]

theorem continues_of_starts (h : title.grouping.starts t = true) :
    title.grouping.continues t = true :=
  continues_iff.mpr ((starts_iff.mp h).imp_right fun ⟨htitle, hvoice⟩ =>
    .inr (.inr ⟨htitle, .inr hvoice⟩))

/-- Every token of a block is text or belongs to text. -/
theorem isOther_of_continues (h : title.grouping.continues t = true) : t.isOther = false := by
  rcases continues_iff.mp h with h | h | h | ⟨-, h | h⟩
  · exact Token.isOther_of_isText h
  all_goals exact Token.isOther_of_action h (by decide)

theorem isVoice_of_continues (h : never7.grouping.continues t = true) : t.isVoice = false := by
  unfold Token.isVoice
  rcases continues_iff.mp h with h | h | h | ⟨⟨⟩, -⟩
  · cases haction : t.convAction? with
    | none => simp
    | some action => simp [Token.isText_of_action haction] at h
  all_goals simp [h]

/-- A token that opens a block without belonging to it is not of its text. -/
theorem of_opens (h : title.grouping.opens t = true) :
    title = .ever17 ∧ t.isText = false ∧ t.isVoice = false ∧ t.isOther = false := by
  obtain ⟨htitle, h | h | h⟩ := opens_iff.mp h
  all_goals exact ⟨htitle, Token.isText_of_action h, by simp [Token.isVoice, h],
    Token.isOther_of_action h (by decide)⟩

theorem isText_of_starts (h : title.grouping.starts t = false) : t.isText = false :=
  Bool.eq_false_iff.mpr fun htext =>
    Bool.eq_false_iff.mp h (starts_iff.mpr (.inl htext))

theorem isVoice_of_starts (h : ever17.grouping.starts t = false) : t.isVoice = false :=
  Bool.eq_false_iff.mpr fun hvoice =>
    Bool.eq_false_iff.mp h (starts_iff.mpr (.inr ⟨rfl, of_decide_eq_true hvoice⟩))

/-- The voice of a block with `members`: the pushed one, or that of the only voice token. -/
inductive VoiceOf (members : List Token) : Title → VoiceSource → Prop where
  | pushed : VoiceOf members .never7 .pushed
  | silent (hvoices : members.filter Token.isVoice = []) : VoiceOf members .ever17 .none
  | clip {t : Token} {name : Bytes} (hvoices : members.filter Token.isVoice = [t])
      (hname : t.Names name) : VoiceOf members .ever17 (.clip name)

end Title

namespace Textblock

variable {title : Title} {piece : Piece} {rest : List Token}

namespace Piece

theorem members_subset (piece : Piece) : piece.members ⊆ piece.tokens := by
  cases piece with
  | lone t => exact List.nil_subset _
  | block opener first others =>
    cases opener with
    | true => exact List.subset_cons_self first others
    | false => exact List.Subset.refl _

/-- Whether the members of a piece are neither text nor line feeds nor voices. -/
def Bare (piece : Piece) : Prop :=
  ∀ t ∈ piece.members, t.isText = false ∧ t.isFeed = false ∧ t.isVoice = false

/-- What a piece becomes: a block of text, its tokens themselves if the block is bare, or the token
that is in no block. -/
inductive Renders : Title → Piece → List Token → Prop where
  | lone {title : Title} (t : Token) : Renders title (.lone t) [t]
  | shown {title : Title} {opener : Bool} {first : Token} {others : List Token} {block : Textblock}
      (hlines : Trims (linesAt (Piece.block opener first others).members) block.lines)
      (hvoice : title.VoiceOf (Piece.block opener first others).members block.voice)
      (hfull : title = .ever17 → ¬(Piece.block opener first others).Bare) :
      Renders title (.block opener first others) [token first others block]
  | kept {opener : Bool} {first : Token} {others : List Token}
      (hbare : (Piece.block opener first others).Bare) :
      Renders .ever17 (.block opener first others) (first :: others)

theorem Leads.continues_of_mem (h : piece.Leads title.grouping rest) {t : Token}
    (ht : t ∈ piece.members) : title.grouping.continues t = true := by
  cases h with
  | lone => cases ht
  | opened _ hothers _ => exact hothers t ht
  | started _ hstarts hothers _ =>
    rcases List.mem_cons.mp ht with rfl | ht
    · exact Title.continues_of_starts hstarts
    · exact hothers t ht

theorem replaced_block (g : Grouping) (opener : Bool) (first : Token) (others : List Token) :
    (block opener first others).replaced g =
      replacement g first others (block opener first others).members := by
  cases opener <;> rfl

end Piece

theorem join_texts_eq_empty_iff {members : List Token} (h : ∀ t ∈ members, t.Plain) :
    String.join (members.flatMap Token.texts) = "" ↔ ∀ t ∈ members, t.isText = false := by
  induction members with
  | nil => simp
  | cons t rest ih =>
    have htext := (h t List.mem_cons_self).isText_iff
    rw [List.flatMap_cons, String.join_append, String.append_eq_empty_iff,
      ih fun t ht => h t (List.mem_cons_of_mem _ ht), List.forall_mem_cons]
    refine and_congr_left fun _ => ?_
    rw [← not_iff_not, ← Ne, ← htext, Bool.not_eq_false]

/-- Plain members leave no lines only if they are neither text nor line feeds. -/
theorem linesOf_eq_nil_iff_of_plain {members : List Token} (h : ∀ t ∈ members, t.Plain) :
    linesOf members = [] ↔ ∀ t ∈ members, t.isText = false ∧ t.isFeed = false := by
  rw [linesOf_eq_nil_iff, join_texts_eq_empty_iff h, List.countP_eq_zero]
  constructor
  · rintro ⟨hfeeds, htexts⟩ t ht
    exact ⟨htexts t ht, by simpa using hfeeds t ht⟩
  · intro hmembers
    exact ⟨fun t ht => by simp [(hmembers t ht).2], fun t ht => (hmembers t ht).1⟩

namespace Piece

variable {out : List Token}

theorem clip_members (hplain : ∀ t ∈ piece.tokens, t.Plain) :
    Clip piece.members (clipOf none piece.members) :=
  clip_clipOf fun t ht => (hplain t (piece.members_subset ht)).namesClip

/-- The blocks of the title that pushes its voices have no voice tokens. -/
theorem Leads.filter_isVoice (h : piece.Leads Title.never7.grouping rest) :
    piece.members.filter Token.isVoice = [] :=
  List.filter_eq_nil_iff.mpr fun t ht => by
    simp [Title.isVoice_of_continues (h.continues_of_mem ht)]

theorem bare_iff (hplain : ∀ t ∈ piece.tokens, t.Plain) : piece.Bare ↔
    linesOf piece.members = [] ∧ piece.members.filter Token.isVoice = [] := by
  rw [linesOf_eq_nil_iff_of_plain fun t ht => hplain t (piece.members_subset ht),
    List.filter_eq_nil_iff]
  constructor
  · intro hbare
    exact ⟨fun t ht => ⟨(hbare t ht).1, (hbare t ht).2.1⟩, fun t ht => by simp [(hbare t ht).2.2]⟩
  · rintro ⟨hlines, hvoices⟩ t ht
    exact ⟨(hlines t ht).1, (hlines t ht).2, by simpa using hvoices t ht⟩

theorem Leads.renders (hleads : piece.Leads title.grouping rest)
    (hplain : ∀ t ∈ piece.tokens, t.Plain) (hout : piece.replaced title.grouping = .ok out) :
    Renders title piece out := by
  have hbare := bare_iff hplain
  have hclip := clip_members hplain
  cases piece with
  | lone t =>
    cases hout
    exact .lone t
  | block opener first others =>
    rw [replaced_block] at hout
    unfold replacement at hout
    -- the voices decide first: a clip is shown even without lines
    generalize clipOf none (block opener first others).members = clip at hclip hout
    have hlines := trims_linesOf (block opener first others).members
    cases hclip with
    | second => cases hout
    | single hvoices hname =>
      cases title with
      | never7 =>
        rw [hleads.filter_isVoice] at hvoices
        cases hvoices
      | ever17 =>
        obtain rfl : [token first others _] = out := by
          simpa [bind, Except.bind, pure, Except.pure] using hout
        refine .shown hlines (.clip hvoices hname) fun _ hmembers => ?_
        rw [(hbare.mp hmembers).2] at hvoices
        cases hvoices
    | silent hvoices =>
      cases title with
      | never7 =>
        cases hout
        exact .shown hlines .pushed nofun
      | ever17 =>
        by_cases hempty : linesOf (block opener first others).members = []
        · obtain rfl : first :: others = out := by
            simpa [bind, Except.bind, pure, Except.pure, hempty, Title.grouping] using hout
          exact .kept (hbare.mpr ⟨hempty, hvoices⟩)
        · obtain rfl : [token first others _] = out := by
            simpa [bind, Except.bind, pure, Except.pure, hempty, Title.grouping] using hout
          exact .shown hlines (.silent hvoices) fun _ hmembers => hempty (hbare.mp hmembers).1

/-- Only a second voice in a block is a fault. -/
theorem Leads.faults_iff (hleads : piece.Leads title.grouping rest)
    (hplain : ∀ t ∈ piece.tokens, t.Plain) :
    (∃ fault, piece.replaced title.grouping = .error fault) ↔
      title = .ever17 ∧ 2 ≤ piece.members.countP Token.isVoice := by
  cases piece with
  | lone t => simp [replaced, members]
  | block opener first others =>
    rw [replaced_block, replacement_faults_iff, (clip_members hplain).faults_iff]
    cases title with
    | ever17 => simp
    | never7 => simp [List.countP_eq_length_filter, hleads.filter_isVoice]

end Piece

/-! ## What is kept -/

/-- Tokens that show the text of others, with no text outside of blocks, and every token that does
not belong to text. -/
structure Conveys (title : Title) (tokens out : List Token) : Prop where
  text : String.join (out.flatMap Token.blockLines) = String.join (tokens.flatMap Token.texts)
  noText : ∀ t ∈ out, t.isText = false
  noVoice : title = .ever17 → ∀ t ∈ out, t.isVoice = false
  others : out.filter Token.isOther = tokens.filter Token.isOther

namespace Conveys

variable {tokens out front shown : List Token}

theorem nil (title : Title) : Conveys title [] [] where
  text := rfl
  noText := List.forall_mem_nil _
  noVoice _ := List.forall_mem_nil _
  others := rfl

theorem append (hfront : Conveys title front shown) (h : Conveys title tokens out) :
    Conveys title (front ++ tokens) (shown ++ out) where
  text := by
    simp only [List.flatMap_append, String.join_append, hfront.text, h.text]
  noText t ht := (List.mem_append.mp ht).elim (hfront.noText t) (h.noText t)
  noVoice htitle t ht :=
    (List.mem_append.mp ht).elim (hfront.noVoice htitle t) (h.noVoice htitle t)
  others := by
    simp only [List.filter_append, hfront.others, h.others]

/-- Plain tokens without text and voices are conveyed as they are. -/
theorem refl (hplain : ∀ t ∈ tokens, t.Plain) (htext : ∀ t ∈ tokens, t.isText = false)
    (hvoice : title = .ever17 → ∀ t ∈ tokens, t.isVoice = false) :
    Conveys title tokens tokens where
  text := by
    rw [List.flatMap_eq_nil_iff.mpr fun t ht => (hplain t ht).blockLines,
      List.flatMap_eq_nil_iff.mpr fun t ht => Token.texts_of_isText (htext t ht)]
  noText := htext
  noVoice := hvoice
  others := rfl

end Conveys

namespace Piece

variable {opener : Bool} {first t : Token} {others out : List Token}

/-- The tokens of a block are its members and perhaps an opener in front of them. -/
theorem Leads.mem_tokens (h : (block opener first others).Leads title.grouping rest)
    (ht : t ∈ first :: others) :
    t ∈ (block opener first others).members ∨ title.grouping.opens t = true := by
  cases h with
  | opened hopens =>
    rcases List.mem_cons.mp ht with rfl | ht
    · exact .inr hopens
    · exact .inl ht
  | started => exact .inl ht

theorem Leads.isOther_of_mem (h : (block opener first others).Leads title.grouping rest)
    (ht : t ∈ first :: others) : t.isOther = false := by
  rcases h.mem_tokens ht with ht | ht
  · exact Title.isOther_of_continues (h.continues_of_mem ht)
  · exact (Title.of_opens ht).2.2.2

/-- An opener has no text. -/
theorem Leads.flatMap_texts (h : (block opener first others).Leads title.grouping rest) :
    (block opener first others).members.flatMap Token.texts =
      (first :: others).flatMap Token.texts := by
  cases h with
  | opened hopens =>
    have htexts : first.texts = [] := Token.texts_of_isText (Title.of_opens hopens).2.1
    simp [members, htexts]
  | started => rfl

theorem Renders.conveys (h : Renders title piece out) (hleads : piece.Leads title.grouping rest)
    (hplain : ∀ t ∈ piece.tokens, t.Plain) : Conveys title piece.tokens out := by
  cases h with
  | lone t =>
    cases hleads with
    | lone hopens hstarts =>
      refine .refl hplain ?_ ?_
      · simpa [Piece.tokens] using Title.isText_of_starts hstarts
      · rintro rfl
        simpa [Piece.tokens] using Title.isVoice_of_starts hstarts
  | @shown _ _ first others block hlines =>
    have htoken : (token first others block).kind = .textblock block := rfl
    refine ⟨?_, ?_, ?_, ?_⟩
    · calc String.join ([token first others block].flatMap Token.blockLines)
          = String.join block.lines := by simp [Token.blockLines, htoken]
        _ = String.join ((first :: others).flatMap Token.texts) := by
          rw [hlines.join, join_linesAt, hleads.flatMap_texts]
    · simp [Token.isText, htoken]
    · simp [Token.isVoice, Token.convAction?, htoken]
    · have hothers : (first :: others).filter Token.isOther = [] :=
        List.filter_eq_nil_iff.mpr fun t ht => by simp [hleads.isOther_of_mem ht]
      simp [Piece.tokens, hothers, Token.isOther, htoken]
  | kept hbare =>
    refine .refl hplain ?_ fun _ => ?_
    · intro t ht
      exact (hleads.mem_tokens ht).elim (fun ht => (hbare t ht).1) fun ht => (Title.of_opens ht).2.1
    · intro t ht
      exact (hleads.mem_tokens ht).elim (fun ht => (hbare t ht).2.2)
        fun ht => (Title.of_opens ht).2.2.1

end Piece

/-! ## Which blocks are shown -/

/-- Tokens that are one block of text. -/
def IsShown (tokens : List Token) : Prop :=
  ∃ t block, tokens = [t] ∧ t.kind = .textblock block

theorem not_isShown_cons {t : Token} {others : List Token} (h : t.Plain) :
    ¬IsShown (t :: others) := by
  rintro ⟨u, block, htokens, hkind⟩
  obtain ⟨rfl, -⟩ := List.cons.inj htokens
  rcases h with ⟨op, hop, -⟩ | ⟨text, htext, -⟩
  · cases hkind.symm.trans hop
  · cases hkind.symm.trans htext

namespace Piece

/-- Whether text or a voice belongs to a piece. -/
def HasContent (piece : Piece) : Prop :=
  ∃ t ∈ piece.members, t.isText = true ∨ t.isVoice = true

/-- Whether a line feed belongs to a piece. -/
def HasFeed (piece : Piece) : Prop :=
  ∃ t ∈ piece.members, t.isFeed = true

theorem bare_iff_not (piece : Piece) : piece.Bare ↔ ¬(piece.HasContent ∨ piece.HasFeed) := by
  unfold Bare HasContent HasFeed
  constructor
  · rintro hbare (⟨t, ht, htext | hvoice⟩ | ⟨t, ht, hfeed⟩)
    · simp [(hbare t ht).1] at htext
    · simp [(hbare t ht).2.2] at hvoice
    · simp [(hbare t ht).2.1] at hfeed
  · intro hnone t ht
    refine ⟨?_, ?_, ?_⟩
    · exact Bool.eq_false_iff.mpr fun htext => hnone (.inl ⟨t, ht, .inl htext⟩)
    · exact Bool.eq_false_iff.mpr fun hfeed => hnone (.inr ⟨t, ht, hfeed⟩)
    · exact Bool.eq_false_iff.mpr fun hvoice => hnone (.inl ⟨t, ht, .inr hvoice⟩)

theorem Renders.shown_iff {out : List Token} (h : Renders .ever17 piece out)
    (hplain : ∀ t ∈ piece.tokens, t.Plain) :
    (IsShown out ↔ piece.HasContent ∨ piece.HasFeed) ∧ (¬IsShown out → out = piece.tokens) := by
  cases h with
  | lone t =>
    have hbare : (Piece.lone t).Bare := List.forall_mem_nil _
    have hnot : ¬IsShown [t] := not_isShown_cons (hplain t List.mem_cons_self)
    exact ⟨iff_of_false hnot ((bare_iff_not _).mp hbare), fun _ => rfl⟩
  | @shown _ _ first others block _ _ hfull =>
    have hshown : IsShown [token first others block] := ⟨_, block, rfl, rfl⟩
    refine ⟨iff_of_true hshown ?_, fun hnot => (hnot hshown).elim⟩
    exact not_not.mp fun hnone => hfull rfl ((bare_iff_not _).mpr hnone)
  | @kept _ first others hbare =>
    have hnot : ¬IsShown (first :: others) := not_isShown_cons (hplain first List.mem_cons_self)
    exact ⟨iff_of_false hnot ((bare_iff_not _).mp hbare), fun _ => rfl⟩

end Piece

/-! ## Main results -/

section

variable {tokens out : List Token} {pieces : List Piece} {outs : List (List Token)}

theorem Divided.leads_of_mem {g : Grouping} (h : Divided g tokens pieces)
    (hpiece : piece ∈ pieces) : ∃ rest, piece.Leads g rest ∧ piece.tokens ⊆ tokens := by
  induction h with
  | nil => cases hpiece
  | @cons first rest pieces hleads _ ih =>
    rcases List.mem_cons.mp hpiece with rfl | hpiece
    · exact ⟨rest, hleads, List.subset_append_left _ _⟩
    · obtain ⟨behind, hbehind, hsubset⟩ := ih hpiece
      exact ⟨behind, hbehind, List.subset_append_of_subset_right _ hsubset⟩

theorem Divided.renders (h : Divided title.grouping tokens pieces)
    (hplain : ∀ t ∈ tokens, t.Plain)
    (houts : List.Forall₂ (fun piece o => piece.replaced title.grouping = .ok o) pieces outs) :
    List.Forall₂ (Piece.Renders title) pieces outs ∧ Conveys title tokens outs.flatten := by
  induction h generalizing outs with
  | nil =>
    cases houts
    exact ⟨.nil, .nil title⟩
  | cons hleads _ ih =>
    cases houts with
    | cons hout houts =>
      have hfront := fun t ht => hplain t (List.mem_append_left _ ht)
      have hrenders := hleads.renders hfront hout
      obtain ⟨hbehind, hconveys⟩ := ih (fun t ht => hplain t (List.mem_append_right _ ht)) houts
      exact ⟨.cons hrenders hbehind, (hrenders.conveys hleads hfront).append hconveys⟩

theorem Divided.faults_iff (h : Divided title.grouping tokens pieces)
    (hplain : ∀ t ∈ tokens, t.Plain) :
    (∃ fault, group title.grouping tokens = .error fault) ↔
      title = .ever17 ∧ ∃ piece ∈ pieces, 2 ≤ piece.members.countP Token.isVoice := by
  have hpiece : ∀ piece ∈ pieces, (∃ fault, piece.replaced title.grouping = .error fault) ↔
      title = .ever17 ∧ 2 ≤ piece.members.countP Token.isVoice := by
    intro piece hpiece
    obtain ⟨rest, hleads, hsubset⟩ := h.leads_of_mem hpiece
    exact hleads.faults_iff fun t ht => hplain t (hsubset ht)
  rw [group_faults_iff h]
  constructor
  · rintro ⟨piece, hmem, hfault⟩
    obtain ⟨htitle, hvoices⟩ := (hpiece piece hmem).mp hfault
    exact ⟨htitle, piece, hmem, hvoices⟩
  · rintro ⟨htitle, piece, hmem, hvoices⟩
    exact ⟨piece, hmem, (hpiece piece hmem).mpr ⟨htitle, hvoices⟩⟩

/-- The tokens of a conversation can be divided into blocks and tokens outside of them. However they
are divided, grouping fails exactly if the title has voice tokens and two of them are in one block;
otherwise each block is rendered in its place, and together the tokens show the same text and keep
everything that is not text. -/
theorem group_conveys (title : Title) (hplain : ∀ t ∈ tokens, t.Plain) :
    (∃ pieces, Divided title.grouping tokens pieces) ∧
      ∀ pieces, Divided title.grouping tokens pieces →
        ((∃ fault, group title.grouping tokens = .error fault) ↔
          title = .ever17 ∧ ∃ piece ∈ pieces, 2 ≤ piece.members.countP Token.isVoice) ∧
        ∀ out, group title.grouping tokens = .ok out →
          Conveys title tokens out ∧
            ∃ outs, List.Forall₂ (Piece.Renders title) pieces outs ∧ out = outs.flatten := by
  refine ⟨exists_divided _ _, fun pieces hdivided => ⟨hdivided.faults_iff hplain, ?_⟩⟩
  intro out hout
  obtain ⟨outs, houts, rfl⟩ := (group_eq_ok_iff hdivided).mp hout
  obtain ⟨hrenders, hconveys⟩ := hdivided.renders hplain houts
  exact ⟨hconveys, outs, hrenders, rfl⟩

/-- A voice and two lines of text are one block; the opcode behind them does not belong to it. -/
theorem group_conveys_voiced_lines :
    let chunk := View.ofBytes [0x0d, 0x76, 0x31, 0x00, 0x48, 0x69, 0x01, 0x79, 0x6f, 0x02]
    let s : Script := ⟨"a", .ever17, chunk, .default, 0, [], [chunk], []⟩
    let tokens := (s.tokenizeConvPlain 0 false).tokens
    let out := (s.tokenizeConv 0 false).tokens
    group Title.ever17.grouping tokens = .ok out ∧ out.map Token.blockLines = [["Hi", "yo"], []] ∧
      Conveys .ever17 tokens out := by
  intro chunk s tokens out
  have hout : group Title.ever17.grouping tokens = .ok out := by decide +kernel
  have hlines : out.map Token.blockLines = [["Hi", "yo"], []] := by decide +kernel
  have hplain : ∀ t ∈ tokens, t.Plain := fun _ ht => Script.plain_of_mem_tokenizeConvPlain ht
  clear_value tokens out
  obtain ⟨⟨pieces, hdivided⟩, hpieces⟩ := group_conveys .ever17 hplain
  exact ⟨hout, hlines, ((hpieces pieces hdivided).2 out hout).1⟩

/-- A block is shown if a text, a voice or a line feed belongs to it, and is left as it is
otherwise. A line feed is enough, since it leaves an empty line in front of it. -/
theorem block_shown_iff (hplain : ∀ t ∈ tokens, t.Plain)
    (hdivided : Divided Title.ever17.grouping tokens pieces)
    (hout : group Title.ever17.grouping tokens = .ok out) :
    ∃ outs, out = outs.flatten ∧
      List.Forall₂
        (fun piece o => (IsShown o ↔ piece.HasContent ∨ piece.HasFeed) ∧
          (¬IsShown o → o = piece.tokens))
        pieces outs := by
  obtain ⟨outs, houts, rfl⟩ := (group_eq_ok_iff hdivided).mp hout
  refine ⟨outs, rfl, ?_⟩
  have hpieces : ∀ piece ∈ pieces, ∀ t ∈ piece.tokens, t.Plain := by
    intro piece hpiece t ht
    obtain ⟨rest, -, hsubset⟩ := hdivided.leads_of_mem hpiece
    exact hplain t (hsubset ht)
  have hrenders := (hdivided.renders hplain houts).1
  exact ((List.forall₂_and_left _ _).mpr ⟨hpieces, hrenders⟩).imp
    fun _ _ ⟨hplain, hrender⟩ => hrender.shown_iff hplain

/-- Two line feeds, the first of which opens a block, are shown as an empty line. -/
theorem block_shown_iff_feeds :
    let chunk := View.ofBytes [0x01, 0x01, 0x02]
    let s : Script := ⟨"a", .ever17, chunk, .default, 0, [], [chunk], []⟩
    let tokens := (s.tokenizeConvPlain 0 false).tokens
    let out := (s.tokenizeConv 0 false).tokens
    (∀ t ∈ tokens, t.isText = false ∧ t.isVoice = false) ∧
      group Title.ever17.grouping tokens = .ok out ∧ out.map Token.blockLines = [[""], []] ∧
      ∃ pieces outs, Divided Title.ever17.grouping tokens pieces ∧ out = outs.flatten ∧
        List.Forall₂
          (fun piece o => (IsShown o ↔ piece.HasContent ∨ piece.HasFeed) ∧
            (¬IsShown o → o = piece.tokens))
          pieces outs := by
  intro chunk s tokens out
  have hcontent : ∀ t ∈ tokens, t.isText = false ∧ t.isVoice = false := by decide +kernel
  have hout : group Title.ever17.grouping tokens = .ok out := by decide +kernel
  have hlines : out.map Token.blockLines = [[""], []] := by decide +kernel
  have hplain : ∀ t ∈ tokens, t.Plain := fun _ ht => Script.plain_of_mem_tokenizeConvPlain ht
  clear_value tokens out
  obtain ⟨pieces, hdivided⟩ := exists_divided Title.ever17.grouping tokens
  obtain ⟨outs, hflatten, houts⟩ := block_shown_iff hplain hdivided hout
  exact ⟨hcontent, hout, hlines, pieces, outs, hdivided, hflatten, houts⟩

end

end Textblock

end NovelScript
