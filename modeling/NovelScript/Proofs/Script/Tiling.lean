import NovelScript.Proofs.Script.Progress
import NovelScript.Script.Chunk

/-! # Tokens tile their chunk

The bytes of the tokens of a chunk lie one behind the other from the start of the chunk on, each
token with one byte at least. If the chunk could be read they reach its end, or the token whose
opcode ends it. Whether the bytes are kept makes no other difference. -/

namespace NovelScript

/-- A grouping replaces the tokens of a block that the first token opens, or keeps the first
token. -/
theorem Textblock.group_cons {g : Grouping} {first : Token} {rest out : List Token}
    (h : group g (first :: rest) = .ok out) :
    (∃ lineTokens block after,
      replacement g first (rest.takeWhile g.continues) lineTokens = .ok block ∧
        group g (rest.dropWhile g.continues) = .ok after ∧ out = block ++ after) ∨
    ∃ after, group g rest = .ok after ∧ out = first :: after := by
  rw [group] at h
  split at h
  · obtain ⟨block, hblock, h⟩ := exceptBind_eq_ok h
    obtain ⟨after, hafter, h⟩ := exceptBind_eq_ok h
    cases h
    exact .inl ⟨_, block, after, hblock, hafter, rfl⟩
  · split at h
    · obtain ⟨block, hblock, h⟩ := exceptBind_eq_ok h
      obtain ⟨after, hafter, h⟩ := exceptBind_eq_ok h
      cases h
      exact .inl ⟨_, block, after, hblock, hafter, rfl⟩
    · obtain ⟨after, hafter, h⟩ := exceptBind_eq_ok h
      cases h
      exact .inr ⟨after, hafter, rfl⟩

/-- The token without its bytes. -/
def Token.bare (t : Token) : Token := { t with raw := none }

/-- The bytes of a token, as far as they were kept. -/
def Token.rawBytes (t : Token) : Bytes :=
  match t.raw with
  | some v => v.bytes
  | none => []

/-- Tokens whose bytes lie one behind the other in a buffer, from `start` up to `stop`. -/
inductive Tiles (buffer : Buffer) : (start : Nat) → List Token → (stop : Nat) → Prop where
  | nil (start : Nat) : Tiles buffer start [] start
  | cons {t : Token} {v : View} {tokens : List Token} {start stop : Nat} (hstart : t.offset = start)
      (hraw : t.raw = some v) (hbuffer : v.buffer = buffer) (hoffset : v.offset = start)
      (hlength : 0 < v.length) (hrest : Tiles buffer v.stop tokens stop) :
      Tiles buffer start (t :: tokens) stop

namespace Tiles

variable {buffer : Buffer} {start stop : Nat} {tokens : List Token}

theorem start_le (h : Tiles buffer start tokens stop) : start ≤ stop := by
  induction h with
  | nil => exact Nat.le_refl _
  | cons _ _ _ hoffset _ _ ih =>
    simp only [View.stop] at ih
    omega

theorem append {others : List Token} {middle : Nat} (h : Tiles buffer start tokens middle)
    (h' : Tiles buffer middle others stop) : Tiles buffer start (tokens ++ others) stop := by
  induction h with
  | nil => exact h'
  | cons hstart hraw hbuffer hoffset hlength _ ih =>
    exact .cons hstart hraw hbuffer hoffset hlength (ih h')

theorem split {others : List Token} (h : Tiles buffer start (tokens ++ others) stop) :
    ∃ middle, Tiles buffer start tokens middle ∧ Tiles buffer middle others stop := by
  induction tokens generalizing start with
  | nil => exact ⟨start, .nil start, h⟩
  | cons t tokens ih =>
    cases h with
    | cons hstart hraw hbuffer hoffset hlength hrest =>
      obtain ⟨middle, hfront, hback⟩ := ih hrest
      exact ⟨middle, .cons hstart hraw hbuffer hoffset hlength hfront, hback⟩

/-- The bytes of the tokens are the bytes between the ends. -/
theorem flatMap_rawBytes (h : Tiles buffer start tokens stop) :
    tokens.flatMap Token.rawBytes = (buffer.data.extract start stop).toList := by
  induction h with
  | nil start => simp
  | @cons t v tokens start stop hstart hraw hbuffer hoffset hlength hrest ih =>
    subst hbuffer hoffset
    have hle := hrest.start_le
    have hfirst : t.rawBytes = v.bytes := by simp only [Token.rawBytes, hraw]
    have hstop : v.offset ≤ v.stop := Nat.le_add_right _ _
    rw [List.flatMap_cons, ih, hfirst, View.bytes, ← Array.toList_append,
      Array.extract_append_extract, Nat.min_eq_left hstop, Nat.max_eq_right hle]

/-- The first and the last of the tokens, which the bytes of all of them lie between. -/
theorem ends {first : Token} (h : Tiles buffer start (first :: tokens) stop) :
    ∃ v w, first.raw = some v ∧ (tokens.getLast?.getD first).raw = some w ∧
      v.buffer = buffer ∧ w.buffer = buffer ∧ v.offset = start ∧ start ≤ w.offset ∧
      v.stop ≤ stop ∧ w.stop = stop ∧ start < stop := by
  induction tokens generalizing first start with
  | nil =>
    cases h with
    | @cons _ v _ _ _ hstart hraw hbuffer hoffset hlength hrest =>
      cases hrest
      refine ⟨v, v, hraw, hraw, hbuffer, hbuffer, hoffset, Nat.le_of_eq hoffset.symm,
        Nat.le_refl _, rfl, ?_⟩
      simp only [View.stop]
      omega
  | cons second tokens ih =>
    cases h with
    | @cons _ v _ _ _ hstart hraw hbuffer hoffset hlength hrest =>
      obtain ⟨v', w, _, hlast, _, hwbuffer, _, hwoffset, _, hwstop, hlt⟩ := ih hrest
      have hvstop : start < v.stop := by
        simp only [View.stop]
        omega
      refine ⟨v, w, hraw, ?_, hbuffer, hwbuffer, hoffset, by omega, by omega, hwstop, by omega⟩
      simpa [List.getLast?_cons] using hlast

/-- The token of a block of text covers what the tokens of the block cover. -/
theorem token {first : Token} (h : Tiles buffer start (first :: tokens) stop) (block : Textblock) :
    Tiles buffer start [Textblock.token first tokens block] stop := by
  obtain ⟨v, w, hfirst, hlast, hvbuffer, hwbuffer, hvoffset, hwoffset, hvstop, hwstop, hlt⟩ :=
    h.ends
  have hoffset : first.offset = start := by
    cases h with
    | cons hstart => exact hstart
  have hsame : v.buffer = w.buffer := hvbuffer.trans hwbuffer.symm
  have hspan : ∃ u, v.spanTo w = some u ∧ u.buffer = buffer ∧ u.offset = start ∧
      u.length = stop - start := by
    rw [View.spanTo, dif_pos hsame]
    exact ⟨_, rfl, hvbuffer, by simp only; omega, by simp only; omega⟩
  obtain ⟨u, hu, hubuffer, huoffset, hulength⟩ := hspan
  have hraw : (Textblock.token first tokens block).raw = some u := by
    simp only [Textblock.token, hfirst, hlast, hu]
  have hustop : u.stop = stop := by
    simp only [View.stop]
    omega
  exact .cons hoffset hraw hubuffer huoffset (by omega) (hustop ▸ .nil u.stop)

/-- What replaces a block of text covers what the tokens of the block cover. -/
theorem replacement {g : Grouping} {first : Token} {lineTokens out : List Token}
    (h : Tiles buffer start (first :: tokens) stop)
    (hout : Textblock.replacement g first tokens lineTokens = .ok out) :
    Tiles buffer start out stop := by
  unfold Textblock.replacement at hout
  cases hclip : Textblock.clipOf none lineTokens with
  | error fault => simp [hclip, bind, Except.bind] at hout
  | ok clip =>
    simp only [hclip, bind, Except.bind] at hout
    split at hout
    · cases hout
      exact h
    · cases hout
      exact h.token _

/-- Grouping keeps the tiling: it joins tokens, and neither drops nor moves any. -/
theorem group {g : Grouping} {out : List Token} (h : Tiles buffer start tokens stop)
    (hout : Textblock.group g tokens = .ok out) : Tiles buffer start out stop := by
  -- induction on the number of tokens, since a block takes more than one
  induction hn : tokens.length using Nat.strongRecOn generalizing tokens start out with
  | ind n ih =>
    cases tokens with
    | nil =>
      rw [Textblock.group] at hout
      cases hout
      exact h
    | cons first rest =>
      obtain ⟨lineTokens, block, after, hreplaced, hafter, rfl⟩ | ⟨after, hafter, rfl⟩ :=
        Textblock.group_cons hout
      · have hshorter : (rest.dropWhile g.continues).length < n := by
          have := (List.dropWhile_suffix g.continues (l := rest)).length_le
          simp only [List.length_cons] at hn
          omega
        rw [← List.takeWhile_append_dropWhile (p := g.continues) (l := rest),
          ← List.cons_append] at h
        obtain ⟨middle, hfront, hback⟩ := h.split
        exact (hfront.replacement hreplaced).append (ih _ hshorter hback hafter rfl)
      · cases h with
        | cons hstart hraw hbuffer hoffset hlength hrest =>
          exact .cons hstart hraw hbuffer hoffset hlength
            (ih rest.length (by simp at hn; omega) hrest hafter rfl)

end Tiles

namespace Script

open Cursor Reader

/-- A token that is read from a cursor takes the bytes up to the cursor behind it, one at least. The
limit stays unless the token ends the chunk. -/
structure Takes (c : Cursor) (t : Token) (after : Cursor) : Prop where
  offset : t.offset = c.pos
  view : after.view = c.view
  forth : c.pos < after.pos
  inside : after.pos ≤ after.limit
  limit : after.limit ≤ c.limit
  ended : after.limit = c.limit ∨ after.pos = after.limit ∧ t.endsChunk = true

theorem Takes.placed {c after : Cursor} {t : Token} (h : Takes c t after) (hc : c.Placed) :
    after.Placed where
  start := h.view ▸ Nat.le_trans hc.start (Nat.le_of_lt h.forth)
  pos := h.inside
  limit := h.view ▸ Nat.le_trans h.limit hc.limit

/-- The bytes from one cursor to a later one can be kept. -/
theorem exists_captured {c after : Cursor} (hc : c.Placed) (hview : after.view = c.view)
    (hforth : c.pos ≤ after.pos) (hinside : after.pos ≤ c.limit) :
    ∃ v, captured true c.pos after = .ok (some v) ∧ v.buffer = c.view.buffer ∧ v.offset = c.pos ∧
      v.stop = after.pos := by
  have hahead : Ahead 0 c { after with limit := c.limit } := ⟨hview, rfl, hforth, hinside⟩
  obtain ⟨v, hv, hrest⟩ := spanFrom_ahead hc hahead
  have hv' : after.spanFrom c.pos = .ok v := hv
  exact ⟨v, by simp only [captured, if_true, hv', Except.map], hrest⟩

/-- What an opcode takes, and the bytes that are kept of it. -/
theorem readOp_takes {α : Type} {s : Script} {table : OpcodeTable α} {kind : OpToken α → TokenKind}
    {capture : Bool} {c after : Cursor} {t : Token} (hc : c.Placed)
    (hkind : ∀ t' : Token, ∀ op, t'.kind = kind op → .stop ∈ op.definition.shape →
      (op.path, op.definition) ∈ table.definitions → t'.endsChunk = true)
    (h : (s.readOp table kind capture c).outcome = .ok (t, after)) :
    Takes c t after ∧ captured capture c.pos after = .ok t.raw := by
  unfold readOp at h
  split at h
  case h_1 => cases h
  case h_2 path definition behind hlookup =>
    have hahead := table.advances_lookup c (path, definition) behind hc hlookup
    simp only at h
    split at h
    · cases h
    · rename_i hfault
      have hshape := s.behindShape_readShape definition.shape (hahead.placed hc) hfault
      split at h
      · cases h
      · rename_i raw hcapture
        cases h
        refine ⟨⟨rfl, hshape.view.trans hahead.view, ?_, hshape.inside, ?_, ?_⟩, hcapture⟩
        · exact Nat.lt_of_lt_of_le hahead.forth hshape.forth
        · exact hahead.limit ▸ hshape.limit
        · rcases hshape.ended with hsame | ⟨hstop, hmem⟩
          · exact .inl (hsame.trans hahead.limit)
          · exact .inr ⟨hstop,
              hkind _ _ rfl hmem (OpcodeTable.mem_definitions_of_lookup hlookup)⟩

theorem readEventToken_takes {s : Script} {capture : Bool} {c after : Cursor} {t : Token}
    (hc : c.Placed) (h : (s.readEventToken capture c).outcome = .ok (t, after)) :
    Takes c t after ∧ captured capture c.pos after = .ok t.raw := by
  refine readOp_takes hc ?_ h
  intro t' op hkind hstop _
  simpa [Token.endsChunk, hkind, OpcodeDef.endsChunk] using hstop

/-- No opcode of a conversation ends its chunk. -/
theorem convTable_endsChunk (title : Title) :
    ∀ entry ∈ title.convTable.definitions, .stop ∉ entry.2.shape := by
  cases title <;> decide +kernel

/-- A run of text that starts with a text byte has that byte at least. -/
theorem readTextRun_takes {s : Script} {capture : Bool} {c after c' : Cursor} {t : Token}
    {byte : UInt8} (hc : c.Placed) (hbyte : (peek u8).runOn c = (.ok byte, c'))
    (htext : isTextByte byte = true) (h : s.readTextRun capture c = .ok (t, after)) :
    Takes c t after ∧ captured capture c.pos after = .ok t.raw := by
  unfold readTextRun at h
  split at h
  case h_1 => cases h
  case h_2 text behind hopen =>
    obtain ⟨raw, hcapture, h⟩ := exceptBind_eq_ok h
    cases h
    obtain ⟨result, stopped, hread, hbehind⟩ := TextCodec.readOpen_eq_ok hopen
    have hahead : Ahead 2 c stopped := by
      have hone := s.title.codec.advances_read c result stopped hc hread
      refine { hone with forth := ?_ }
      obtain ⟨rest, hrest⟩ := rest_of_peek hc hbyte
      simp only [runOn, TextCodec.read, hrest] at hread
      obtain ⟨houtcome, rfl⟩ := Prod.mk.inj hread
      exact TextCodec.scan_bounds_text htext (Prod.ext houtcome rfl)
    have htakes := TextCodec.ahead_of_readOpen hahead hbehind
    refine ⟨⟨rfl, htakes.view, htakes.forth, htakes.limit ▸ htakes.inside,
      Nat.le_of_eq htakes.limit, .inl htakes.limit⟩, hcapture⟩

theorem readConvToken_takes {s : Script} {capture : Bool} {c after : Cursor} {t : Token}
    (hc : c.Placed) (h : (s.readConvToken capture c).outcome = .ok (t, after)) :
    Takes c t after ∧ captured capture c.pos after = .ok t.raw := by
  unfold readConvToken at h
  simp only at h
  split at h
  · -- the byte opens no opcode
    split at h
    · split at h
      · rename_i byte c' hbyte htext
        exact readTextRun_takes hc hbyte htext h
      · cases h
    · cases h
  · refine readOp_takes hc ?_ h
    intro t' op _ hstop hmem
    exact absurd hstop (convTable_endsChunk s.title _ hmem)

theorem readOp_kind {α : Type} {s : Script} {table : OpcodeTable α} {kind : OpToken α → TokenKind}
    {capture : Bool} {c after : Cursor} {t : Token}
    (h : (s.readOp table kind capture c).outcome = .ok (t, after)) : ∃ op, t.kind = kind op := by
  unfold readOp at h
  split at h
  · cases h
  · simp only at h
    split at h
    · cases h
    · split at h
      · cases h
      · cases h
        exact ⟨_, rfl⟩

theorem readConvToken_endsChunk {s : Script} {capture : Bool} {c after : Cursor} {t : Token}
    (h : (s.readConvToken capture c).outcome = .ok (t, after)) : t.endsChunk = false := by
  unfold readConvToken at h
  simp only at h
  split at h
  · split at h
    · split at h
      · simp only [readTextRun] at h
        split at h
        · cases h
        · obtain ⟨raw, _, h⟩ := exceptBind_eq_ok h
          cases h
          rfl
      · cases h
    · cases h
  · obtain ⟨op, hkind⟩ := readOp_kind h
    simp [Token.endsChunk, hkind]

/-- What holds of every token that can be read holds of every token of a run. -/
theorem readTokens_forall {readToken : Cursor → TokenRead} {P : Token → Prop}
    (h : ∀ {c t after}, (readToken c).outcome = .ok (t, after) → P t) (fuel : Nat) (c : Cursor) :
    ∀ t ∈ (readTokens readToken fuel c).tokens, P t := by
  induction fuel generalizing c with
  | zero => simp [readTokens]
  | succ fuel ih =>
    rw [readTokens]
    split
    · simp
    · cases hread : (readToken c).outcome with
      | error fault => simp [hread]
      | ok result =>
        intro t ht
        simp only [hread, Tokenized.cons] at ht
        rcases List.mem_cons.mp ht with rfl | ht
        · exact h hread
        · exact ih _ t ht

theorem readTokens_atEnd (readToken : Cursor → TokenRead) (fuel : Nat) {c : Cursor}
    (h : c.pos = c.limit) : readTokens readToken fuel c = ⟨[], none, []⟩ := by
  cases fuel with
  | zero => rfl
  | succ fuel => rw [readTokens, if_pos (by simp [Cursor.atEnd, h])]

/-- Reading tokens tiles the bytes from the cursor on. Without a fault the tokens reach the limit or
end with one that ends the chunk. -/
theorem readTokens_tiles {readToken : Cursor → TokenRead}
    (htakes : ∀ {c t after}, c.Placed → (readToken c).outcome = .ok (t, after) →
      Takes c t after ∧ captured true c.pos after = .ok t.raw)
    (fuel : Nat) {c : Cursor} (hc : c.Placed) (hfuel : c.limit - c.pos ≤ fuel) :
    ∃ stop, Tiles c.view.buffer c.pos (readTokens readToken fuel c).tokens stop ∧ stop ≤ c.limit ∧
      ((readTokens readToken fuel c).fault = none → stop = c.limit ∨
        ∃ last ∈ (readTokens readToken fuel c).tokens.getLast?, last.endsChunk = true) := by
  have hpos := hc.pos
  induction fuel generalizing c with
  | zero => exact ⟨c.pos, .nil c.pos, hpos, fun _ => .inl (by omega)⟩
  | succ fuel ih =>
    rw [readTokens]
    by_cases hend : c.atEnd = true
    · rw [if_pos hend]
      have hlimit : c.limit ≤ c.pos := by simpa [Cursor.atEnd] using hend
      exact ⟨c.pos, .nil c.pos, hpos, fun _ => .inl (by omega)⟩
    · rw [if_neg hend]
      cases hread : (readToken c).outcome with
      | error fault =>
        simp only [hread]
        exact ⟨c.pos, .nil c.pos, hpos, fun h => by cases h⟩
      | ok result =>
        obtain ⟨t, after⟩ := result
        obtain ⟨ht, hraw⟩ := htakes hc hread
        have hforth := ht.forth
        have hlimit := ht.limit
        obtain ⟨v, hv, hbuffer, hoffset, hstop⟩ :=
          exists_captured hc ht.view (Nat.le_of_lt hforth) (Nat.le_trans ht.inside hlimit)
        rw [hraw, Except.ok.injEq] at hv
        obtain ⟨stop, htiles, hinside, hdone⟩ :=
          ih (ht.placed hc) (by omega) (ht.placed hc).pos
        simp only [hread, Tokenized.cons]
        refine ⟨stop, .cons ht.offset hv hbuffer hoffset ?_ ?_, Nat.le_trans hinside hlimit, ?_⟩
        · simp only [View.stop] at hstop
          omega
        · rw [hstop, ← ht.view]
          exact htiles
        · intro hfault
          rcases ht.ended with hsame | ⟨hat, hends⟩
          · rcases hdone hfault with hreach | ⟨last, hlast, hends⟩
            · exact .inl (hreach.trans hsame)
            · exact .inr ⟨last, by simp [List.getLast?_cons, Option.mem_def.mp hlast], hends⟩
          · -- the limit stands where the token ends, so there are no further tokens
            exact .inr ⟨t, by simp [readTokens_atEnd readToken fuel hat], hends⟩

end Script

/-! ## Tokens without their bytes -/

/-- A grouping that does not look at the bytes of tokens. -/
structure Grouping.IgnoresBytes (g : Grouping) : Prop where
  opens : ∀ t : Token, g.opens t.bare = g.opens t
  starts : ∀ t : Token, g.starts t.bare = g.starts t
  continues : ∀ t : Token, g.continues t.bare = g.continues t

theorem Title.ignoresBytes_grouping (title : Title) : title.grouping.IgnoresBytes := by
  cases title with
  | ever17 => exact ⟨fun _ => rfl, fun _ => rfl, fun _ => rfl⟩
  | never7 => exact ⟨fun _ => rfl, fun _ => rfl, fun _ => rfl⟩

namespace Textblock

theorem clipOf_bare (found : Option Bytes) (tokens : List Token) :
    clipOf found (tokens.map Token.bare) = clipOf found tokens := by
  induction tokens generalizing found with
  | nil => rfl
  | cons t tokens ih =>
    simp only [List.map_cons, clipOf, ih]
    rfl

theorem linesOf_bare (tokens : List Token) : linesOf (tokens.map Token.bare) = linesOf tokens := by
  simp only [linesOf, List.foldl_map]
  rfl

theorem token_bare (first : Token) (others : List Token) (block : Textblock) :
    token first.bare (others.map Token.bare) block = (token first others block).bare := by
  simp only [token, Token.bare]

theorem replacement_bare (g : Grouping) (first : Token) (others lineTokens : List Token) :
    replacement g first.bare (others.map Token.bare) (lineTokens.map Token.bare) =
      (replacement g first others lineTokens).map (·.map Token.bare) := by
  simp only [replacement, clipOf_bare, linesOf_bare, token_bare]
  cases clipOf none lineTokens with
  | error fault => rfl
  | ok clip =>
    simp only [bind, Except.bind]
    split <;> rfl

/-- Grouping tokens without their bytes gives the groups without their bytes. -/
theorem group_bare {g : Grouping} (hg : g.IgnoresBytes) (tokens : List Token) :
    group g (tokens.map Token.bare) = (group g tokens).map (·.map Token.bare) := by
  have htake : ∀ l : List Token, (l.map Token.bare).takeWhile g.continues =
      (l.takeWhile g.continues).map Token.bare := by
    intro l
    rw [List.takeWhile_map]
    congr 2
    exact funext hg.continues
  have hdrop : ∀ l : List Token, (l.map Token.bare).dropWhile g.continues =
      (l.dropWhile g.continues).map Token.bare := by
    intro l
    rw [List.dropWhile_map]
    congr 2
    exact funext hg.continues
  induction hn : tokens.length using Nat.strongRecOn generalizing tokens with
  | ind n ih =>
    cases tokens with
    | nil => simp [group, Except.map]
    | cons first rest =>
      simp only [List.length_cons] at hn
      have hlength := (List.dropWhile_suffix g.continues (l := rest)).length_le
      have hrest := ih rest.length (by omega) rest rfl
      have hbehind := ih (rest.dropWhile g.continues).length (by omega) _ rfl
      have hblock (lineTokens : List Token) :
          (do
            let block ← replacement g first.bare ((rest.takeWhile g.continues).map Token.bare)
              (lineTokens.map Token.bare)
            let after ← (group g (rest.dropWhile g.continues)).map (·.map Token.bare)
            return block ++ after) =
          Except.map (·.map Token.bare) (do
            let block ← replacement g first (rest.takeWhile g.continues) lineTokens
            let after ← group g (rest.dropWhile g.continues)
            return block ++ after) := by
        rw [replacement_bare]
        cases replacement g first (rest.takeWhile g.continues) lineTokens with
        | error fault => rfl
        | ok block =>
          cases group g (rest.dropWhile g.continues) with
          | error fault => rfl
          | ok after => simp [bind, Except.bind, Except.map, pure, Except.pure]
      rw [List.map_cons, group, group, hg.opens, hg.starts, htake, hdrop, hbehind, hrest]
      split
      · exact hblock _
      · split
        · exact hblock (first :: _)
        · cases group g rest with
          | error fault => rfl
          | ok after => rfl

end Textblock

/-- The outcome with the bytes of its tokens dropped. -/
def Tokenized.bare (t : Tokenized) : Tokenized := { t with tokens := t.tokens.map Token.bare }

namespace Script

open Cursor Reader

/-- The outcome with the bytes of its token dropped. -/
def TokenRead.bare (r : TokenRead) : TokenRead :=
  { r with outcome := r.outcome.map fun (t, after) => (t.bare, after) }

theorem readOp_bare {α : Type} (s : Script) (table : OpcodeTable α) (kind : OpToken α → TokenKind)
    {c : Cursor} (hc : c.Placed) :
    s.readOp table kind false c = (s.readOp table kind true c).bare := by
  unfold readOp
  rcases hlookup : table.lookup.runOn c with ⟨outcome, behind⟩
  cases outcome with
  | error fault => rfl
  | ok found =>
    have hahead := table.advances_lookup c found behind hc hlookup
    simp only
    cases hfault : (s.readShape found.2.shape behind).fault with
    | some fault => rfl
    | none =>
      have hshape := s.behindShape_readShape found.2.shape (hahead.placed hc) hfault
      obtain ⟨v, hv, _⟩ := exists_captured hc (hshape.view.trans hahead.view)
        (Nat.le_trans (Nat.le_of_lt hahead.forth) hshape.forth)
        (Nat.le_trans hshape.inside (hahead.limit ▸ hshape.limit))
      simp only [hv]
      rfl

theorem readTextRun_bare (s : Script) {c : Cursor} (hc : c.Placed) :
    s.readTextRun false c =
      (s.readTextRun true c).map fun (t, after) => (t.bare, after) := by
  unfold readTextRun
  rcases hopen : s.title.codec.readOpen.runOn c with ⟨outcome, after⟩
  cases outcome with
  | error fault => rfl
  | ok text =>
    have hahead := s.title.codec.advances_readOpen c text after hc hopen
    obtain ⟨v, hv, _⟩ := exists_captured hc hahead.view hahead.forth hahead.inside
    simp only [hv]
    rfl

theorem readConvToken_bare (s : Script) {c : Cursor} (hc : c.Placed) :
    s.readConvToken false c = (s.readConvToken true c).bare := by
  unfold readConvToken
  rw [readOp_bare s _ _ hc, readTextRun_bare s hc]
  generalize s.readOp s.title.convTable .conv true c = read
  rcases read with ⟨outcome, targets⟩
  cases outcome with
  | ok result => rfl
  | error fault =>
    cases fault with
    | unknownOpcode path offset =>
      simp only [TokenRead.bare, Except.map]
      split
      · split <;> rfl
      · rfl
    | _ => rfl

/-- Reading without keeping bytes gives the tokens without their bytes. -/
theorem readTokens_bare {readToken readBare : Cursor → TokenRead}
    (hbare : ∀ {c}, c.Placed → readBare c = (readToken c).bare)
    (htakes : ∀ {c t after}, c.Placed → (readToken c).outcome = .ok (t, after) → Takes c t after)
    (fuel : Nat) {c : Cursor} (hc : c.Placed) :
    readTokens readBare fuel c = (readTokens readToken fuel c).bare := by
  induction fuel generalizing c with
  | zero => rfl
  | succ fuel ih =>
    rw [readTokens, readTokens, hbare hc]
    by_cases hend : c.atEnd = true
    · rw [if_pos hend, if_pos hend]
      rfl
    · rw [if_neg hend, if_neg hend]
      cases hread : (readToken c).outcome with
      | error fault =>
        simp only [TokenRead.bare, hread, Except.map]
        rfl
      | ok result =>
        have hnext := ih ((htakes hc hread).placed hc)
        simp only [TokenRead.bare, hread, Except.map, hnext]
        rfl

theorem tokenizeEvent_bare (s : Script) (known : DataChunks) (index : Nat) :
    s.tokenizeEvent known index false = (s.tokenizeEvent known index true).bare := by
  unfold tokenizeEvent
  cases s.eventChunk index with
  | error fault => rfl
  | ok chunk =>
    simp only
    split
    · rfl
    · exact readTokens_bare (s.readOp_bare s.title.eventTable .event)
        (fun hc h => (readEventToken_takes hc h).1) chunk.length (.ofView chunk)

theorem tokenizeConvPlain_bare (s : Script) (index : Nat) :
    s.tokenizeConvPlain index false = (s.tokenizeConvPlain index true).bare := by
  unfold tokenizeConvPlain
  cases s.convChunk index with
  | error fault => rfl
  | ok chunk =>
    exact readTokens_bare s.readConvToken_bare (fun hc h => (readConvToken_takes hc h).1)
      chunk.length (.ofView chunk)

theorem tokenizeConv_bare (s : Script) (index : Nat) :
    s.tokenizeConv index false = (s.tokenizeConv index true).bare := by
  unfold tokenizeConv
  rw [tokenizeConvPlain_bare]
  generalize s.tokenizeConvPlain index true = plain
  cases hfault : plain.fault with
  | some fault => simp [Tokenized.bare, hfault]
  | none =>
    simp only [Tokenized.bare, hfault, Textblock.group_bare s.title.ignoresBytes_grouping]
    cases Textblock.group s.title.grouping plain.tokens with
    | error fault => rfl
    | ok tokens => rfl

/-! ## The tokens of a chunk -/

/-- Tokens that cover a chunk from its start up to `stop`, without gap or overlap. -/
structure TilesChunk (chunk : View) (tokens : List Token) (stop : Nat) : Prop where
  tiles : Tiles chunk.buffer chunk.offset tokens stop
  inside : stop ≤ chunk.stop
  bytes : tokens.flatMap Token.rawBytes = chunk.bytes.take (stop - chunk.offset)

theorem TilesChunk.of_tiles {chunk : View} {tokens : List Token} {stop : Nat}
    (htiles : Tiles chunk.buffer chunk.offset tokens stop) (hinside : stop ≤ chunk.stop) :
    TilesChunk chunk tokens stop := by
  refine ⟨htiles, hinside, ?_⟩
  rw [htiles.flatMap_rawBytes, View.bytes, Array.toList_extract, Array.toList_extract,
    List.extract_eq_take_drop, List.extract_eq_take_drop, List.take_take]
  congr 1
  omega

/-- The tokens of a chunk tile it up to its end or to the token that ends it, or up to a fault. -/
theorem tokensOf_tiles {readToken : Cursor → TokenRead}
    (htakes : ∀ {c t after}, c.Placed → (readToken c).outcome = .ok (t, after) →
      Takes c t after ∧ captured true c.pos after = .ok t.raw) (chunk : View) :
    ∃ stop, TilesChunk chunk (tokensOf readToken chunk).tokens stop ∧
      ((tokensOf readToken chunk).fault = none → stop = chunk.stop ∨
        ∃ last ∈ (tokensOf readToken chunk).tokens.getLast?, last.endsChunk = true) := by
  have hfuel : (Cursor.ofView chunk).limit - (Cursor.ofView chunk).pos ≤ chunk.length := by
    simp only [Cursor.ofView, View.stop]
    omega
  obtain ⟨stop, htiles, hinside, hdone⟩ :=
    readTokens_tiles htakes chunk.length (.ofView chunk) hfuel
  exact ⟨stop, .of_tiles htiles hinside, hdone⟩

theorem tokenizeConvPlain_tiles {s : Script} {index : Nat} {chunk : View}
    (hchunk : s.convChunk index = .ok chunk) :
    ∃ stop, TilesChunk chunk (s.tokenizeConvPlain index true).tokens stop ∧
      ((s.tokenizeConvPlain index true).fault = none → stop = chunk.stop) := by
  simp only [tokenizeConvPlain, hchunk]
  obtain ⟨stop, htiles, hdone⟩ := tokensOf_tiles (readConvToken_takes (s := s)) chunk
  refine ⟨stop, htiles, fun hfault => ?_⟩
  rcases hdone hfault with hstop | ⟨last, hlast, hends⟩
  · exact hstop
  · have hmem := List.mem_of_getLast? (Option.mem_def.mp hlast)
    have hnot := readTokens_forall (P := fun t => t.endsChunk = false) readConvToken_endsChunk
      chunk.length (Cursor.ofView chunk) last hmem
    rw [hends] at hnot
    cases hnot

/-- Tokens tile their chunk. With their bytes kept, the tokens of an event chunk that is not known
to hold data and those of a conversation chunk, text grouped or not, cover the chunk from its start
on, each token with one byte at least. Up to a fault they cover a part of it; without one they cover
all of it, or an event chunk up to a token that ends it. Without their bytes the tokens, the fault
and the chunks found to hold data are the same. -/
theorem tokens_tile_chunk (s : Script) (known : DataChunks) (index : Nat) :
    (∀ chunk, s.eventChunk index = .ok chunk → index ∉ known →
      ∃ stop, TilesChunk chunk (s.tokenizeEvent known index true).tokens stop ∧
        ((s.tokenizeEvent known index true).fault = none → stop = chunk.stop ∨
          ∃ last ∈ (s.tokenizeEvent known index true).tokens.getLast?, last.endsChunk = true)) ∧
    (∀ chunk, s.convChunk index = .ok chunk →
      (∃ stop, TilesChunk chunk (s.tokenizeConvPlain index true).tokens stop ∧
        ((s.tokenizeConvPlain index true).fault = none → stop = chunk.stop)) ∧
      ∃ stop, TilesChunk chunk (s.tokenizeConv index true).tokens stop ∧
        ((s.tokenizeConv index true).fault = none → stop = chunk.stop)) ∧
    s.tokenizeEvent known index false = (s.tokenizeEvent known index true).bare ∧
    s.tokenizeConvPlain index false = (s.tokenizeConvPlain index true).bare ∧
    s.tokenizeConv index false = (s.tokenizeConv index true).bare := by
  refine ⟨?_, ?_, s.tokenizeEvent_bare known index, s.tokenizeConvPlain_bare index,
    s.tokenizeConv_bare index⟩
  · intro chunk hchunk hknown
    have hcode : known.contains index = false := by simpa using hknown
    simp only [tokenizeEvent, hchunk, hcode, Bool.false_eq_true, if_false]
    exact tokensOf_tiles readEventToken_takes chunk
  · intro chunk hchunk
    obtain ⟨stop, htiles, hdone⟩ := tokenizeConvPlain_tiles hchunk
    refine ⟨⟨stop, htiles, hdone⟩, stop, ?_⟩
    unfold tokenizeConv
    simp only
    split
    · exact ⟨htiles, hdone⟩
    · rename_i hfault
      split
      · rename_i tokens hgroup
        exact ⟨.of_tiles (htiles.tiles.group hgroup) htiles.inside, hdone⟩
      · exact ⟨htiles, fun h => by cases h⟩

/-- A chunk whose second opcode ends it in front of its last byte, and a chunk of text, both read
without a fault. -/
theorem tokens_tile_end_and_text :
    let events := View.ofBytes [0x00, 0x00, 0x00, 0x06, 0xff]
    let convs := View.ofBytes [0x41, 0x42, 0x01, 0x00]
    let s : Script := ⟨"a", .never7, events, .default, 0, [events], [convs], []⟩
    let parts (tokens : List Token) := tokens.map fun t => (t.offset, t.rawBytes, t.endsChunk)
    ((s.tokenizeEvent [] 0 true).fault = none ∧
      parts (s.tokenizeEvent [] 0 true).tokens =
        [(0, [0x00, 0x00], false), (2, [0x00, 0x06], true)] ∧
      ∃ stop, TilesChunk events (s.tokenizeEvent [] 0 true).tokens stop ∧
        (stop = events.stop ∨
          ∃ last ∈ (s.tokenizeEvent [] 0 true).tokens.getLast?, last.endsChunk = true)) ∧
    (s.tokenizeConv 0 true).fault = none ∧
      parts (s.tokenizeConv 0 true).tokens =
        [(0, [0x41, 0x42, 0x01], false), (3, [0x00], false)] ∧
      TilesChunk convs (s.tokenizeConv 0 true).tokens convs.stop := by
  intro events convs s parts
  have hevents : (s.tokenizeEvent [] 0 true).fault = none ∧
      parts (s.tokenizeEvent [] 0 true).tokens =
        [(0, [0x00, 0x00], false), (2, [0x00, 0x06], true)] := by
    decide +kernel
  have hconvs : (s.tokenizeConv 0 true).fault = none ∧
      parts (s.tokenizeConv 0 true).tokens =
        [(0, [0x41, 0x42, 0x01], false), (3, [0x00], false)] := by
    decide +kernel
  have h := tokens_tile_chunk s [] 0
  obtain ⟨stop, htiles, hends⟩ := h.1 events rfl List.not_mem_nil
  obtain ⟨stop', htiles', hdone⟩ := (h.2.1 convs rfl).2
  obtain rfl := hdone hconvs.1
  exact ⟨⟨hevents.1, hevents.2, stop, htiles, hends hevents.1⟩, hconvs.1, hconvs.2, htiles'⟩

end Script

end NovelScript
