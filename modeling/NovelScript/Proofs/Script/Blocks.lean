import Mathlib.Data.List.Forall2
import NovelScript.Proofs.Script.Operands

/-! # Blocks of a conversation

The tokens of a conversation, as they are read, fall into blocks and tokens between them. A block
starts with a token that opens one and goes on as long as tokens continue it. Its lines are the texts
of its members, split at the line feeds; its voice is that of a voice token among them. -/

namespace NovelScript

namespace Token

/-- The text of a token that is text. -/
def texts (t : Token) : List String :=
  match t.kind with
  | .text text => [text]
  | _ => []

/-- The lines of a token that is a block of text. -/
def blockLines (t : Token) : List String :=
  match t.kind with
  | .textblock block => block.lines
  | _ => []

def isFeed (t : Token) : Bool := t.convAction? = some .linefeed

def isVoice (t : Token) : Bool := t.convAction? = some .voice

/-- What the opcodes around text do. -/
def textActions : List ConvAction := [.linefeed, .blockPrefix, .section, .textAux, .voice]

/-- A token that is neither text nor one of the opcodes around text. -/
def isOther (t : Token) : Bool :=
  match t.kind with
  | .text _ | .textblock _ => false
  | .conv op => op.definition.action ∉ textActions
  | .event _ | .data _ => true

/-- A token as it is read from a conversation: an opcode, which names its clip if it is a voice, or
text of one character at least. -/
def Plain (t : Token) : Prop :=
  (∃ op, t.kind = .conv op ∧ t.NamesClip) ∨ ∃ text, t.kind = .text text ∧ text ≠ ""

/-- A token whose first operand is the name of a clip. -/
def Names (t : Token) (name : Bytes) : Prop :=
  ∃ op, t.kind = .conv op ∧ op.bytes 0 = .ok name

variable {t : Token}

theorem texts_of_isText (h : t.isText = false) : t.texts = [] := by
  unfold isText at h
  unfold texts
  split
  · simp_all
  · rfl

theorem isText_of_action {action : ConvAction} (h : t.convAction? = some action) :
    t.isText = false := by
  unfold convAction? at h
  unfold isText
  split <;> simp_all

theorem isText_of_isFeed (h : t.isFeed = true) : t.isText = false :=
  isText_of_action (of_decide_eq_true h)

theorem isOther_of_isText (h : t.isText = true) : t.isOther = false := by
  unfold isText at h
  unfold isOther
  split <;> simp_all

theorem isOther_of_action {action : ConvAction} (h : t.convAction? = some action)
    (haction : action ∈ textActions) : t.isOther = false := by
  unfold convAction? at h
  unfold isOther
  split <;> simp_all

theorem exists_op_of_isVoice (h : t.isVoice = true) :
    ∃ op, t.kind = .conv op ∧ op.definition.action = .voice := by
  unfold isVoice convAction? at h
  split at h
  · rename_i op hkind
    exact ⟨op, hkind, by simpa using h⟩
  · simp at h

theorem Plain.namesClip (h : t.Plain) : t.NamesClip := by
  rcases h with ⟨op, -, h⟩ | ⟨text, hkind, -⟩
  · exact h
  · intro op hop
    rw [hkind] at hop
    cases hop

/-- A token without characters is not text. -/
theorem Plain.isText_iff (h : t.Plain) : t.isText = true ↔ String.join t.texts ≠ "" := by
  rcases h with ⟨op, hkind, -⟩ | ⟨text, hkind, htext⟩
  · simp [isText, texts, hkind]
  · simpa [isText, texts, hkind] using htext

theorem Plain.blockLines (h : t.Plain) : t.blockLines = [] := by
  rcases h with ⟨op, hkind, -⟩ | ⟨text, hkind, -⟩ <;> simp [Token.blockLines, hkind]

end Token

/-! ## Reading plain tokens -/

theorem decodeShiftJis_eq_empty {bytes : Bytes} {offset : Nat}
    (h : decodeShiftJis bytes offset = .ok "") : bytes = [] := by
  have hchars : Text.ShiftJis.decodeChars? bytes = some [] := by
    unfold decodeShiftJis Text.ShiftJis.decode? at h
    cases hchars : Text.ShiftJis.decodeChars? bytes with
    | none => simp [hchars] at h
    | some chars => simpa [hchars] using h
  unfold Text.ShiftJis.decodeChars? at hchars
  split at hchars
  · rfl
  · simp at hchars
  · split at hchars
    · simp at hchars
    · split at hchars <;> simp at hchars

namespace TextCodec

/-- What is decoded and what waits to be decoded is in the text that is read. -/
theorem scan_ne_empty {codec : TextCodec} {start limit pos pos' : Nat} {text : String}
    {pending rest : Bytes} {result : String × UInt8}
    (h : codec.scan start limit pos text pending rest = (.ok result, pos'))
    (hread : text ≠ "" ∨ pending ≠ []) : result.1 ≠ "" := by
  fun_induction scan codec start limit pos text pending rest with
  | case1 => cases h
  | case2 pos text pending b rest =>
    cases hdecoded : decodeShiftJis pending start with
    | error fault => simp [hdecoded, Except.map] at h
    | ok tail =>
      obtain rfl : (text ++ tail, b) = result := by
        simpa [hdecoded, Except.map] using (Prod.mk.inj h).1
      intro hempty
      obtain ⟨rfl, rfl⟩ := String.append_eq_empty_iff.mp hempty
      rcases hread with hread | hread
      · exact hread rfl
      · exact hread (decodeShiftJis_eq_empty hdecoded)
  | case3 => cases h
  | case4 => cases h
  | case5 => cases h
  | case6 => cases h
  | case7 _ _ _ _ _ _ _ _ _ _ _ _ _ ih => exact ih h (.inl (by simp))
  | case8 _ _ _ _ _ _ _ ih => exact ih h (.inr (by simp))

/-- Text that starts with a byte of text has a character. -/
theorem scan_text_ne_empty {codec : TextCodec} {start limit pos pos' : Nat} {b : UInt8}
    {rest : Bytes} {result : String × UInt8} (hb : isTextByte b = true)
    (h : codec.scan start limit pos "" [] (b :: rest) = (.ok result, pos')) : result.1 ≠ "" := by
  rw [scan.eq_def] at h
  simp only [hb, Bool.true_eq_false, if_false] at h
  split at h
  · split at h
    · cases h
    · split at h
      · cases h
      · split at h
        · cases h
        · split at h
          · cases h
          · exact scan_ne_empty h (.inl (by simp))
  · exact scan_ne_empty h (.inr (by simp))

theorem readOpen_ne_empty {codec : TextCodec} {c c' : Cursor} {text : String} {b : UInt8}
    {rest : Bytes} (hrest : c.rest = b :: rest) (hb : isTextByte b = true)
    (h : codec.readOpen.runOn c = (.ok text, c')) : text ≠ "" := by
  obtain ⟨result, after, hread, h⟩ := Reader.runOn_bind_ok h
  obtain ⟨_, _, -, h⟩ := Reader.runOn_bind_ok h
  obtain rfl : result.1 = text := Except.ok.inj (Prod.mk.inj h).1
  simp only [Reader.runOn, read, hrest] at hread
  obtain ⟨houtcome, -⟩ := Prod.mk.inj hread
  exact scan_text_ne_empty hb (Prod.ext houtcome rfl)

end TextCodec

namespace Script

variable {s : Script}

/-- What holds of every token that is read where its bytes are holds of every token of a run. -/
theorem readTokens_forall_placed {readToken : Cursor → TokenRead} {P : Token → Prop}
    (h : ∀ {c t after}, c.Placed → (readToken c).outcome = .ok (t, after) →
      Takes c t after ∧ P t) (fuel : Nat) {c : Cursor} (hc : c.Placed) :
    ∀ t ∈ (readTokens readToken fuel c).tokens, P t := by
  induction fuel generalizing c with
  | zero => simp [readTokens]
  | succ fuel ih =>
    rw [readTokens]
    split
    · simp
    · cases hread : (readToken c).outcome with
      | error fault => simp [hread]
      | ok result =>
        obtain ⟨htakes, hresult⟩ := h hc hread
        intro t ht
        simp only [hread, Tokenized.cons] at ht
        rcases List.mem_cons.mp ht with rfl | ht
        · exact hresult
        · exact ih (htakes.placed hc) t ht

theorem plain_readConvToken {capture : Bool} {c after : Cursor} {t : Token} (hc : c.Placed)
    (h : (s.readConvToken capture c).outcome = .ok (t, after)) : t.Plain := by
  unfold readConvToken at h
  simp only at h
  split at h
  · split at h
    · split at h
      · rename_i byte c' hbyte htext
        obtain ⟨rest, hrest⟩ := Reader.rest_of_peek hc hbyte
        simp only [readTextRun] at h
        split at h
        · cases h
        · rename_i text behind hopen
          obtain ⟨raw, -, h⟩ := exceptBind_eq_ok h
          cases h
          exact .inr ⟨text, rfl, TextCodec.readOpen_ne_empty hrest htext hopen⟩
      · cases h
    · cases h
  · obtain ⟨op, hkind, hread⟩ := readFrom_readOp h
    refine .inl ⟨op, hkind, fun op' hkind' hvoice => ?_⟩
    obtain rfl : op' = op := TokenKind.conv.inj (hkind'.symm.trans hkind)
    exact (hread.holds_conv (by rw [hvoice]; exact List.mem_cons_self)).bytes

/-- Tokens that are read from a conversation are plain. -/
theorem plain_of_mem_tokenizeConvPlain {index : Nat} {capture : Bool} {t : Token}
    (h : t ∈ (s.tokenizeConvPlain index capture).tokens) : t.Plain := by
  unfold tokenizeConvPlain at h
  split at h
  · cases h
  · exact readTokens_forall_placed
      (fun hc hread => ⟨(readConvToken_takes hc hread).1, plain_readConvToken hc hread⟩)
      _ (.ofView _) t h

end Script

namespace Textblock

variable {g : Grouping} {rest : List Token}

/-! ## Division into blocks -/

/-- A part of a conversation: a token outside of blocks, or a block. A block consists of its first
token and others; the first is an opener and no member of the block, or a member. -/
inductive Piece where
  | lone (t : Token)
  | block (opener : Bool) (first : Token) (others : List Token)

namespace Piece

def tokens : Piece → List Token
  | lone t => [t]
  | block _ first others => first :: others

def members : Piece → List Token
  | lone _ => []
  | block true _ others => others
  | block false first others => first :: others

/-- A piece in front of `rest`: a block goes on as long as tokens continue it. -/
inductive Leads (g : Grouping) (rest : List Token) : Piece → Prop where
  | lone {t : Token} (hopens : g.opens t = false) (hstarts : g.starts t = false) :
      Leads g rest (lone t)
  | opened {first : Token} {others : List Token} (hopens : g.opens first = true)
      (hothers : ∀ t ∈ others, g.continues t = true)
      (hend : ∀ t ∈ rest.head?, g.continues t = false) : Leads g rest (block true first others)
  | started {first : Token} {others : List Token} (hopens : g.opens first = false)
      (hstarts : g.starts first = true) (hothers : ∀ t ∈ others, g.continues t = true)
      (hend : ∀ t ∈ rest.head?, g.continues t = false) : Leads g rest (block false first others)

end Piece

/-- Tokens divided into pieces. -/
inductive Divided (g : Grouping) : List Token → List Piece → Prop where
  | nil : Divided g [] []
  | cons {piece : Piece} {rest : List Token} {pieces : List Piece} (hleads : piece.Leads g rest)
      (hrest : Divided g rest pieces) : Divided g (piece.tokens ++ rest) (piece :: pieces)

theorem exists_divided (g : Grouping) (tokens : List Token) : ∃ pieces, Divided g tokens pieces := by
  induction hn : tokens.length using Nat.strongRecOn generalizing tokens with
  | ind n ih =>
    cases tokens with
    | nil => exact ⟨[], .nil⟩
    | cons first rest =>
      simp only [List.length_cons] at hn
      have hothers : ∀ t ∈ rest.takeWhile g.continues, g.continues t = true :=
        List.all_eq_true.mp List.all_takeWhile
      have hend : ∀ t ∈ (rest.dropWhile g.continues).head?, g.continues t = false := by
        intro t ht
        have hnot := List.head?_dropWhile_not g.continues rest
        rw [Option.mem_def.mp ht] at hnot
        simpa using hnot
      have hlength := (List.dropWhile_suffix g.continues (l := rest)).length_le
      obtain ⟨behind, hbehind⟩ := ih _ (by omega) (rest.dropWhile g.continues) rfl
      have hblock (opener : Bool)
          (hleads : Piece.Leads g (rest.dropWhile g.continues)
            (.block opener first (rest.takeWhile g.continues))) :
          Divided g (first :: rest)
            (.block opener first (rest.takeWhile g.continues) :: behind) := by
        have hdivided := Divided.cons hleads hbehind
        rwa [Piece.tokens, List.cons_append, List.takeWhile_append_dropWhile] at hdivided
      cases hopens : g.opens first with
      | true => exact ⟨_, hblock true (.opened hopens hothers hend)⟩
      | false =>
        cases hstarts : g.starts first with
        | true => exact ⟨_, hblock false (.started hopens hstarts hothers hend)⟩
        | false =>
          obtain ⟨pieces, hpieces⟩ := ih rest.length (by omega) rest rfl
          exact ⟨_, .cons (.lone hopens hstarts) hpieces⟩

/-- What grouping puts in the place of a piece. -/
def Piece.replaced (g : Grouping) : Piece → Except Fault (List Token)
  | .lone t => .ok [t]
  | .block true first others => replacement g first others others
  | .block false first others => replacement g first others (first :: others)

/-- Grouping replaces the first piece and goes on behind it. -/
theorem group_leads {piece : Piece} (h : piece.Leads g rest) :
    group g (piece.tokens ++ rest) = (do
      let block ← piece.replaced g
      let after ← group g rest
      return block ++ after) := by
  have htake {others : List Token} (hothers : ∀ t ∈ others, g.continues t = true)
      (hend : ∀ t ∈ rest.head?, g.continues t = false) :
      (others ++ rest).takeWhile g.continues = others ∧
        (others ++ rest).dropWhile g.continues = rest := by
    rw [List.takeWhile_append_of_pos hothers, List.dropWhile_append_of_pos hothers]
    cases rest with
    | nil => simp
    | cons t rest => simp [hend t rfl]
  cases h with
  | lone hopens hstarts =>
    simp only [Piece.tokens, List.cons_append, List.nil_append]
    rw [group]
    simp [hopens, hstarts, Piece.replaced]
    rfl
  | opened hopens hothers hend =>
    obtain ⟨htake, hdrop⟩ := htake hothers hend
    simp only [Piece.tokens, List.cons_append]
    rw [group]
    simp only [hopens, htake, hdrop, if_true, Piece.replaced]
  | started hopens hstarts hothers hend =>
    obtain ⟨htake, hdrop⟩ := htake hothers hend
    simp only [Piece.tokens, List.cons_append]
    rw [group]
    simp only [hopens, hstarts, htake, hdrop, if_true, Piece.replaced, Bool.false_eq_true, if_false]

/-- Grouping replaces every piece on its own. -/
theorem group_eq_ok_iff {tokens out : List Token} {pieces : List Piece}
    (h : Divided g tokens pieces) : group g tokens = .ok out ↔
      ∃ outs, List.Forall₂ (fun piece o => piece.replaced g = .ok o) pieces outs ∧
        out = outs.flatten := by
  induction h generalizing out with
  | nil =>
    rw [group]
    constructor
    · rintro ⟨⟩
      exact ⟨[], .nil, rfl⟩
    · rintro ⟨outs, houts, rfl⟩
      cases houts
      rfl
  | cons hleads hrest ih =>
    rw [group_leads hleads]
    constructor
    · intro hgroup
      obtain ⟨o, ho, hgroup⟩ := exceptBind_eq_ok hgroup
      obtain ⟨after, hafter, hgroup⟩ := exceptBind_eq_ok hgroup
      obtain ⟨outs, houts, rfl⟩ := ih.mp hafter
      cases hgroup
      exact ⟨o :: outs, .cons ho houts, rfl⟩
    · rintro ⟨_, houts, rfl⟩
      cases houts with
      | @cons _ o _ outs ho houts =>
        rw [ho, ih.mpr ⟨outs, houts, rfl⟩]
        rfl

/-- Grouping fails where it fails to replace a piece. -/
theorem group_faults_iff {tokens : List Token} {pieces : List Piece}
    (h : Divided g tokens pieces) : (∃ fault, group g tokens = .error fault) ↔
      ∃ piece ∈ pieces, ∃ fault, piece.replaced g = .error fault := by
  induction h with
  | nil =>
    rw [group]
    simp
  | @cons piece rest pieces hleads hrest ih =>
    rw [group_leads hleads, List.exists_mem_cons_iff]
    cases hreplaced : piece.replaced g with
    | error fault => simp [bind, Except.bind]
    | ok o =>
      rw [← ih]
      cases group g rest <;> simp [bind, Except.bind, pure, Except.pure]

/-! ## Lines of a block -/

/-- The texts of members, split at the line feeds. -/
def linesAt (members : List Token) : List String :=
  (members.splitOnP Token.isFeed).map fun line => String.join (line.flatMap Token.texts)

/-- What is shown of lines: they are shown without the last one if it is empty. -/
def Trims (lines shown : List String) : Prop :=
  lines = shown ++ [""] ∨ lines = shown ∧ lines.getLast? ≠ some ""

variable {members : List Token} {t : Token}

theorem linesAt_nil : linesAt [] = [""] := by
  simp [linesAt, List.splitOnP_nil, String.join]

theorem linesAt_feed (h : t.isFeed = true) : linesAt (t :: members) = "" :: linesAt members := by
  simp [linesAt, List.splitOnP_cons_eq_if_modifyHead, h, String.join]

theorem linesAt_member (h : t.isFeed = false) :
    linesAt (t :: members) = (linesAt members).modifyHead (String.join t.texts ++ ·) := by
  unfold linesAt
  rw [List.splitOnP_cons_eq_if_modifyHead, h]
  cases hsplit : members.splitOnP Token.isFeed with
  | nil => exact absurd hsplit (List.splitOnP_ne_nil _ _)
  | cons line lines => simp [String.join_append]

theorem length_linesAt (members : List Token) :
    (linesAt members).length = members.countP Token.isFeed + 1 := by
  induction members with
  | nil => simp [linesAt_nil]
  | cons t rest ih =>
    cases hfeed : t.isFeed with
    | true => simp [linesAt_feed hfeed, hfeed, ih]
    | false => simp [linesAt_member hfeed, hfeed, ih]

/-- Line feeds only split the text. -/
theorem join_linesAt (members : List Token) :
    String.join (linesAt members) = String.join (members.flatMap Token.texts) := by
  induction members with
  | nil => simp [linesAt_nil, String.join_cons]
  | cons t rest ih =>
    rw [List.flatMap_cons, String.join_append, ← ih]
    cases hfeed : t.isFeed with
    | true =>
      have htexts : t.texts = [] := Token.texts_of_isText (Token.isText_of_isFeed hfeed)
      simp [linesAt_feed hfeed, htexts, String.join_cons]
    | false =>
      rw [linesAt_member hfeed]
      cases hlines : linesAt rest with
      | nil => simpa [hlines] using length_linesAt rest
      | cons line lines => simp [String.join_cons, String.append_assoc]

theorem appendText_last (front : List String) (line text : String) :
    appendText text (front ++ [line]) = front ++ [line ++ text] := by
  induction front with
  | nil => rfl
  | cons first front ih =>
    cases front with
    | nil => rfl
    | cons second front => simpa [appendText] using ih

theorem addMember_feed (lines : List String) (h : t.isFeed = true) :
    addMember lines t = lines ++ [""] := by
  have haction : t.convAction? = some .linefeed := by simpa [Token.isFeed] using h
  unfold addMember
  split
  · rename_i hkind
    simp [Token.convAction?, hkind] at haction
  · exact if_pos haction

theorem addMember_member (front : List String) (line : String) (h : t.isFeed = false) :
    addMember (front ++ [line]) t = front ++ [line ++ String.join t.texts] := by
  have haction : t.convAction? ≠ some .linefeed := by simpa [Token.isFeed] using h
  unfold addMember
  split
  · rename_i text hkind
    simp [appendText_last, Token.texts, hkind, String.join_cons]
  · rename_i hkind
    have htexts : t.texts = [] := by
      unfold Token.texts
      split
      · exact (hkind _ ‹_›).elim
      · rfl
    simp [haction, htexts]

theorem modifyHead_empty_append (lines : List String) : lines.modifyHead ("" ++ ·) = lines := by
  cases lines <;> simp

/-- The lines that are gathered member by member are the texts split at the line feeds. -/
theorem foldl_addMember (front : List String) (line : String) (members : List Token) :
    members.foldl addMember (front ++ [line]) =
      front ++ (linesAt members).modifyHead (line ++ ·) := by
  -- the last line is still open, so it is generalised along with the lines before it
  induction members generalizing front line with
  | nil => simp [linesAt_nil]
  | cons t rest ih =>
    rw [List.foldl_cons]
    cases hfeed : t.isFeed with
    | true =>
      rw [addMember_feed _ hfeed, ih, linesAt_feed hfeed, modifyHead_empty_append]
      simp
    | false =>
      rw [addMember_member _ _ hfeed, ih, linesAt_member hfeed, List.modifyHead_modifyHead]
      simp [Function.comp_def, String.append_assoc]

theorem trims_linesOf (members : List Token) : Trims (linesAt members) (linesOf members) := by
  have hlines : members.foldl addMember [""] = linesAt members := by
    have h := foldl_addMember [] "" members
    rwa [modifyHead_empty_append, List.nil_append, List.nil_append] at h
  unfold linesOf
  simp only [hlines]
  split
  · rename_i hlast
    exact .inl (List.dropLast_append_getLast? "" hlast).symm
  · rename_i hlast
    exact .inr ⟨rfl, hlast⟩

theorem Trims.join {lines shown : List String} (h : Trims lines shown) :
    String.join shown = String.join lines := by
  rcases h with rfl | ⟨rfl, -⟩
  · simp [String.join_append, String.join_cons]
  · rfl

/-- A line feed leaves an empty line in front of it, so there are no lines only where there is no
line feed. -/
theorem linesOf_eq_nil_iff : linesOf members = [] ↔
    members.countP Token.isFeed = 0 ∧ String.join (members.flatMap Token.texts) = "" := by
  have hlength := length_linesAt members
  rw [← join_linesAt]
  constructor
  · intro hnil
    rcases trims_linesOf members with hlines | ⟨hlines, -⟩
    · rw [hnil, List.nil_append] at hlines
      rw [hlines] at hlength ⊢
      simpa [String.join_cons] using hlength.symm
    · simp [hlines, hnil] at hlength
  · rintro ⟨hfeeds, htext⟩
    rw [hfeeds, Nat.zero_add] at hlength
    obtain ⟨line, hline⟩ := List.length_eq_one_iff.mp hlength
    obtain rfl : line = "" := by simpa [hline, String.join_cons] using htext
    rcases trims_linesOf members with hlines | ⟨hlines, hlast⟩
    · simpa [hline] using hlines
    · simp [hline] at hlast

/-! ## Voice of a block -/

theorem clipOf_quiet (found : Option Bytes) (h : t.isVoice = false) :
    clipOf found (t :: members) = clipOf found members := by
  rw [clipOf]
  split
  · rename_i op hkind
    have haction : op.definition.action ≠ .voice := by
      simpa [Token.isVoice, Token.convAction?, hkind] using h
    exact if_neg haction
  · rfl

theorem clipOf_voice (found : Option Bytes) (members : List Token) (h : t.isVoice = true)
    (hname : t.NamesClip) : ∃ name, t.Names name ∧ clipOf found (t :: members) = match found with
      | some _ => .error (.invalidData t.offset .secondVoice)
      | none => clipOf (some name) members := by
  obtain ⟨op, hkind, haction⟩ := Token.exists_op_of_isVoice h
  obtain ⟨name, hbytes⟩ := hname op hkind haction
  refine ⟨name, ⟨op, hkind, hbytes⟩, ?_⟩
  cases found with
  | none => simp [clipOf, hkind, haction, hbytes, bind, Except.bind]
  | some earlier => simp [clipOf, hkind, haction]

/-- Once a voice is found, the next one is a fault. -/
theorem clipOf_some (name : Bytes) (h : ∀ t ∈ members, t.NamesClip) :
    clipOf (some name) members = match members.filter Token.isVoice with
      | [] => .ok (some name)
      | second :: _ => .error (.invalidData second.offset .secondVoice) := by
  induction members with
  | nil => rfl
  | cons t rest ih =>
    cases hvoice : t.isVoice with
    | true =>
      obtain ⟨_, -, hclip⟩ := clipOf_voice (some name) rest hvoice (h t List.mem_cons_self)
      simp [hclip, hvoice]
    | false =>
      rw [clipOf_quiet _ hvoice, ih fun t ht => h t (List.mem_cons_of_mem _ ht)]
      simp [hvoice]

/-- The clip of a block without a voice, of one with a single voice, and the fault at the second
voice of a block. -/
inductive Clip (members : List Token) : Except Fault (Option Bytes) → Prop where
  | silent (hvoices : members.filter Token.isVoice = []) : Clip members (.ok none)
  | single {t : Token} {name : Bytes} (hvoices : members.filter Token.isVoice = [t])
      (hname : t.Names name) : Clip members (.ok (some name))
  | second {t u : Token} {others : List Token}
      (hvoices : members.filter Token.isVoice = t :: u :: others) :
      Clip members (.error (.invalidData u.offset .secondVoice))

theorem Clip.cons_quiet {clip : Except Fault (Option Bytes)} (h : Clip members clip)
    (hvoice : t.isVoice = false) : Clip (t :: members) clip := by
  have hfilter : (t :: members).filter Token.isVoice = members.filter Token.isVoice := by
    simp [hvoice]
  cases h with
  | silent hvoices => exact .silent (hfilter.trans hvoices)
  | single hvoices hname => exact .single (hfilter.trans hvoices) hname
  | second hvoices => exact .second (hfilter.trans hvoices)

theorem clip_clipOf (h : ∀ t ∈ members, t.NamesClip) : Clip members (clipOf none members) := by
  induction members with
  | nil => exact .silent rfl
  | cons t rest ih =>
    have hrest : ∀ t ∈ rest, t.NamesClip := fun t ht => h t (List.mem_cons_of_mem _ ht)
    cases hvoice : t.isVoice with
    | false =>
      rw [clipOf_quiet _ hvoice]
      exact (ih hrest).cons_quiet hvoice
    | true =>
      obtain ⟨name, hname, hclip⟩ := clipOf_voice none rest hvoice (h t List.mem_cons_self)
      rw [hclip, clipOf_some name hrest]
      have hfilter : (t :: rest).filter Token.isVoice = t :: rest.filter Token.isVoice := by
        simp [hvoice]
      cases hvoices : rest.filter Token.isVoice with
      | nil => exact .single (hfilter.trans (by rw [hvoices])) hname
      | cons u others => exact .second (hfilter.trans (by rw [hvoices]))

theorem Clip.faults_iff {clip : Except Fault (Option Bytes)} (h : Clip members clip) :
    (∃ fault, clip = .error fault) ↔ 2 ≤ members.countP Token.isVoice := by
  rw [List.countP_eq_length_filter]
  cases h with
  | silent hvoices => simp [hvoices]
  | single hvoices => simp [hvoices]
  | second hvoices => simp [hvoices]

/-- A block is replaced unless its voices are at fault. -/
theorem replacement_faults_iff (first : Token) (others members : List Token) :
    (∃ fault, replacement g first others members = .error fault) ↔
      ∃ fault, clipOf none members = .error fault := by
  unfold replacement
  cases clipOf none members with
  | error fault => simp [bind, Except.bind]
  | ok clip =>
    simp only [bind, Except.bind]
    split <;> simp [pure, Except.pure]

end Textblock

end NovelScript
