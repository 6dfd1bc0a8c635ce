import CrossCompiler.Proofs.Lexer.Grammar

/-!
# What the lexer accounts for, and what it accepts

Two results about whole sources.  The items of a source, errors among them, show every byte
of it once, in order and with its offset, white space apart.  And the sources that give
tokens are exactly the sentences of the grammar, each of which stands for one list of tokens
only, up to their places.
-/

namespace CrossCompiler
namespace Lexer

/-!
## The layout of a scanned source
-/

theorem exists_chars_of_blank {blanks : List Symbol} (h : ∀ s ∈ blanks, isBlank s = true) :
    ∃ cs : List Char, blanks = cs.map Symbol.char ∧ ∀ c ∈ cs, isSpace c = true := by
  have hchar : ∀ s ∈ blanks, s.isStray = false := by
    intro s hs
    cases s with
    | char c => rfl
    | stray b => cases h _ hs
  obtain ⟨cs, rfl⟩ := Utf8.exists_map_char hchar
  exact ⟨cs, rfl, List.forall_mem_map.1 h⟩

theorem whiteSpace_of_blank {blanks : List Symbol} (h : ∀ s ∈ blanks, isBlank s = true) :
    WhiteSpace (blanks.flatMap Symbol.bytes) := by
  obtain ⟨cs, rfl, hcs⟩ := exists_chars_of_blank h
  exact ⟨cs, hcs, Utf8.flatMap_bytes_map_char cs⟩

/-- A cut as bytes. -/
def Cut.piece (cut : Cut) : Piece :=
  ⟨cut.blanks.flatMap Symbol.bytes, cut.lexeme.flatMap Symbol.bytes, whiteSpace_of_blank cut.blank⟩

theorem Cut.piece_bytes (cut : Cut) : cut.piece.bytes = cut.symbols.flatMap Symbol.bytes :=
  List.flatMap_append.symm

theorem flatMap_piece_bytes (cuts : List Cut) : (cuts.map Cut.piece).flatMap Piece.bytes =
    (cuts.flatMap Cut.symbols).flatMap Symbol.bytes := by
  rw [List.flatMap_map, List.flatMap_assoc]
  exact List.flatMap_congr fun cut _ => cut.piece_bytes

theorem bytes_ne_nil (s : Symbol) : s.bytes ≠ [] := by
  cases s with
  | char c => exact String.utf8EncodeChar_ne_nil
  | stray b => simp [Symbol.bytes]

theorem Cut.piece_lexeme_ne_nil (cut : Cut) : cut.piece.lexeme ≠ [] := by
  simp [piece, lexeme, bytes_ne_nil]

theorem Cut.pos_item (cut : Cut) (pos : Pos) :
    (cut.item pos).pos = pos.advanceAll cut.blanks :=
  pos_classify _ _ _

theorem Cut.shows_item (cut : Cut) (pos : Pos) : Shows cut.piece.lexeme (cut.item pos) :=
  shows_classify _ cut.joined

/-- The layout that the cuts of a source give it. -/
def Scans.layout {s trailing : List Symbol} {cuts : List Cut} (h : Scans s cuts trailing) :
    Layout :=
  ⟨cuts.map Cut.piece, trailing.flatMap Symbol.bytes, whiteSpace_of_blank h.trailing_blank⟩

theorem Scans.layout_bytes {s trailing : List Symbol} {cuts : List Cut}
    (h : Scans s cuts trailing) : h.layout.bytes = s.flatMap Symbol.bytes := by
  rw [Layout.bytes, layout, flatMap_piece_bytes, ← List.flatMap_append, h.flatMap_symbols]

/-!
## Places
-/

/-- Reading symbols moves the place on by their bytes. -/
theorem offset_advanceAll (pos : Pos) (s : List Symbol) :
    (pos.advanceAll s).offset = pos.offset + (s.flatMap Symbol.bytes).length := by
  induction s generalizing pos with
  | nil => simp [Pos.advanceAll]
  | cons a s ih =>
      have hone : (pos.advance a).offset = pos.offset + a.bytes.length := by
        unfold Pos.advance
        split <;> rfl
      rw [Pos.advanceAll, List.foldl_cons, ← Pos.advanceAll, ih, hone, List.flatMap_cons,
        List.length_append]
      push_cast
      omega

theorem offset_le_of_mem_itemsOf {pos : Pos} {cuts : List Cut} {item : Item}
    (h : item ∈ itemsOf pos cuts) : pos.offset ≤ item.pos.offset := by
  induction cuts generalizing pos with
  | nil => cases h
  | cons cut cuts ih =>
      rcases List.mem_cons.1 h with rfl | hlater
      · rw [Cut.pos_item, offset_advanceAll]
        omega
      · have hle := ih hlater
        rw [offset_advanceAll] at hle
        omega

/-- The items of cuts stand one behind the other. -/
theorem pairwise_offset_itemsOf (pos : Pos) (cuts : List Cut) :
    (itemsOf pos cuts).Pairwise fun a b => a.pos.offset < b.pos.offset := by
  induction cuts generalizing pos with
  | nil => exact .nil
  | cons cut cuts ih =>
      refine List.pairwise_cons.2 ⟨fun item hitem => ?_, ih _⟩
      have hle := offset_le_of_mem_itemsOf hitem
      have hpos : 0 < (cut.lexeme.flatMap Symbol.bytes).length :=
        List.length_pos_iff.2 cut.piece_lexeme_ne_nil
      rw [Cut.symbols, advanceAll_append, offset_advanceAll] at hle
      rw [Cut.pos_item]
      omega

/-!
## Tokens and errors of a run
-/

theorem mem_errorsOf {found : List Item} {e : Error} :
    e ∈ errorsOf found ↔ Item.error e ∈ found := by
  rw [errorsOf, List.mem_filterMap]
  constructor
  · rintro ⟨item, hitem, he⟩
    cases item with
    | token t => cases he
    | error found =>
        obtain rfl := Option.some.inj he
        exact hitem
  · intro h
    exact ⟨.error e, h, rfl⟩

theorem errorsOf_eq_nil_iff {found : List Item} :
    errorsOf found = [] ↔ ∀ e, Item.error e ∉ found := by
  simp only [List.eq_nil_iff_forall_not_mem, mem_errorsOf]

theorem map_token_tokensOf {found : List Item} (h : ∀ e, Item.error e ∉ found) :
    (tokensOf found).map Item.token = found := by
  induction found with
  | nil => rfl
  | cons item found ih =>
      have hrest : ∀ e, Item.error e ∉ found := fun e he => h e (List.mem_cons_of_mem _ he)
      cases item with
      | token t =>
          have hcons : tokensOf (.token t :: found) = t :: tokensOf found := rfl
          rw [hcons, List.map_cons, ih hrest]
      | error e => exact absurd List.mem_cons_self (h e)

/-- Tokens come back exactly when every item is a token. -/
theorem tokenize_eq_ok_iff {source : Bytes} {tokens : List Token} :
    tokenize source = .ok tokens ↔ items (.ofBytes source) = tokens.map Item.token := by
  rw [tokenize]
  constructor
  · intro h
    split at h
    · next herrors =>
      obtain rfl := Except.ok.inj h
      exact (map_token_tokensOf (errorsOf_eq_nil_iff.1 herrors)).symm
    · cases h
  · intro h
    have herrors : errorsOf (items (.ofBytes source)) = [] := by
      rw [errorsOf_eq_nil_iff, h]
      simp
    have htokens : tokensOf (items (.ofBytes source)) = tokens := by
      rw [h, tokensOf, List.filterMap_map]
      exact List.filterMap_some
    simp only [herrors, htokens]

/-- Otherwise all the errors come back. -/
theorem tokenize_eq_error {source : Bytes} (h : ∃ e, Item.error e ∈ items (.ofBytes source)) :
    tokenize source = .error (errorsOf (items (.ofBytes source))) := by
  have hne : errorsOf (items (.ofBytes source)) ≠ [] := by
    intro hnil
    obtain ⟨e, he⟩ := h
    exact errorsOf_eq_nil_iff.1 hnil e he
  rw [tokenize]
  split
  · next hnil => exact absurd hnil hne
  · rfl

theorem eq_errorsOf_of_tokenize {source : Bytes} {errors : List Error}
    (h : tokenize source = .error errors) : errors = errorsOf (items (.ofBytes source)) := by
  rw [tokenize] at h
  split at h
  · cases h
  · exact (Except.error.inj h).symm

/-- The errors of a source come back in the order in which they stand there. -/
theorem pairwise_offset_of_tokenize {source : Bytes} {errors : List Error}
    (h : tokenize source = .error errors) :
    errors.Pairwise fun e f => e.pos.offset < f.pos.offset := by
  obtain ⟨cuts, trailing, hscans⟩ := exists_scans (Utf8.symbols source)
  have hitems : items (.ofBytes source) = itemsOf .start cuts := hscans.items_eq .start
  rw [eq_errorsOf_of_tokenize h, hitems, errorsOf]
  refine (pairwise_offset_itemsOf .start cuts).filterMap _ ?_
  rintro (t | e) (u | f) hlt e' he f' hf
  · cases he
  · cases he
  · cases hf
  · obtain rfl := Option.some.inj he
    obtain rfl := Option.some.inj hf
    exact hlt

/-- Nothing is lost and nothing is read twice.  Asking for items until the end and on gives
the same finite list of items and then only the end; the items show the lexemes of a layout of
the source, each at the offset of its first byte; and the tokens or errors of the source are
those of these items. -/
theorem items_partition_source (source : Bytes) :
    ∃ (run : List Item) (layout : Layout),
      (∀ later, requests (run.length + later) (.ofBytes source) =
        run.map some ++ List.replicate later none) ∧
      layout.bytes = source ∧ layout.pieces.length = run.length ∧
      (∀ k item p, run[k]? = some item → layout.pieces[k]? = some p →
        p.lexeme ≠ [] ∧ Shows p.lexeme item ∧
        item.pos.offset = ((layout.pieces.take k).flatMap Piece.bytes ++ p.space).length) ∧
      ((∀ e, Item.error e ∉ run) →
        tokenize source = .ok (tokensOf run) ∧ (tokensOf run).map Item.token = run) ∧
      ((∃ e, Item.error e ∈ run) → tokenize source = .error (errorsOf run)) := by
  obtain ⟨cuts, trailing, hscans⟩ := exists_scans (Utf8.symbols source)
  have hitems : items (.ofBytes source) = itemsOf .start cuts := hscans.items_eq .start
  refine ⟨itemsOf .start cuts, hscans.layout, ?_, ?_, ?_, ?_, ?_, ?_⟩
  · intro later
    rw [length_itemsOf]
    exact hscans.requests_eq .start later
  · rw [hscans.layout_bytes, Utf8.flatMap_bytes_symbols]
  · simp [Scans.layout]
  · intro k item p hitem hpiece
    rw [Scans.layout, List.getElem?_map, Option.map_eq_some_iff] at hpiece
    obtain ⟨cut, hcut, rfl⟩ := hpiece
    rw [getElem?_itemsOf, hcut, Option.map_some, Option.some.injEq] at hitem
    subst hitem
    refine ⟨cut.piece_lexeme_ne_nil, cut.shows_item _, ?_⟩
    rw [Cut.pos_item, ← advanceAll_append, offset_advanceAll, List.flatMap_append,
      ← flatMap_piece_bytes, List.map_take, Pos.start, Int.zero_add]
    rfl
  · intro hnone
    have htokens := map_token_tokensOf hnone
    exact ⟨tokenize_eq_ok_iff.2 (by rw [hitems, htokens]), htokens⟩
  · intro hsome
    rw [← hitems] at hsome ⊢
    exact tokenize_eq_error hsome

/-!
## The sentences of the grammar
-/

/-- Lists of tokens that are the same up to the places of the tokens. -/
def SameTokens (ts us : List Token) : Prop := List.Forall₂ (fun t u => Token.same t u = true) ts us

theorem same_iff {t u : Token} :
    t.same u = true ↔ t.kind = u.kind ∧ t.text = u.text ∧ t.value = u.value := by
  simp [Token.same, and_assoc]

theorem Spells.of_same {s : Bytes} {t u : Token} (h : Spells s t) (hsame : t.same u = true) :
    Spells s u := by
  obtain ⟨kind, txt, value, pos⟩ := u
  obtain ⟨hkind, htext, hvalue⟩ := same_iff.1 hsame
  dsimp only at hkind htext hvalue
  subst hkind htext hvalue
  cases h with
  | mark _ hmark => exact .mark pos hmark
  | keyword _ hs => exact .keyword pos hs
  | identifier _ hs hnot => exact .identifier pos hs hnot
  | constant _ hs hlt => exact .constant pos hs hlt

theorem forall₂_comp {α β γ : Type} {R : α → β → Prop} {S : β → γ → Prop} {T : α → γ → Prop}
    (hcomp : ∀ a b c, R a b → S b c → T a c) {as : List α} {bs : List β} {cs : List γ}
    (hR : List.Forall₂ R as bs) (hS : List.Forall₂ S bs cs) : List.Forall₂ T as cs := by
  induction hR generalizing cs with
  | nil =>
      cases hS
      exact .nil
  | cons hab _ ih =>
      cases hS with
      | cons hbc hrest => exact .cons (hcomp _ _ _ hab hbc) (ih hrest)

theorem SameTokens.symm {ts us : List Token} (h : SameTokens ts us) : SameTokens us ts := by
  refine List.Forall₂.flip (h.imp fun t u hsame => ?_)
  rw [same_iff] at hsame
  exact same_iff.2 ⟨hsame.1.symm, hsame.2.1.symm, hsame.2.2.symm⟩

theorem SameTokens.trans {ts us vs : List Token} (htu : SameTokens ts us)
    (huv : SameTokens us vs) : SameTokens ts vs := by
  refine forall₂_comp (fun t u v h h' => ?_) htu huv
  rw [same_iff] at h h' ⊢
  exact ⟨h.1.trans h'.1, h.2.1.trans h'.2.1, h.2.2.trans h'.2.2⟩

/-- The first symbol of a cut that gives a token is a character of words if the lexeme is a
word or a numeral. -/
theorem isWordPart_first {cut : Cut} (hrun : IsRun cut.piece.lexeme) {pos : Pos} {t : Token}
    (h : cut.item pos = .token t) : ∃ c, cut.first = .char c ∧ isWordPart c = true := by
  have hchars : ∃ d ds, cut.piece.lexeme = Utf8.encode (d :: ds) ∧ isWordPart d = true := by
    rcases hrun with hword | hnumeral
    · obtain ⟨d, ds, heq, hd, -⟩ := isWord_iff.1 hword
      exact ⟨d, ds, heq, isWordPart_iff.2 (.inl hd)⟩
    · obtain ⟨d, ds, heq, hdigits⟩ := isNumeral_iff.1 hnumeral
      exact ⟨d, ds, heq, isWordPart_iff.2 (.inr (hdigits d List.mem_cons_self))⟩
  obtain ⟨d, ds, heq, hd⟩ := hchars
  cases hfirst : cut.first with
  | stray b => simp [Cut.item, classify, hfirst] at h
  | char c =>
      -- The lexeme begins with the bytes of both characters, and one character is read there.
      rw [Cut.piece, Cut.lexeme, hfirst, List.flatMap_cons, Symbol.bytes, Utf8.encode_cons] at heq
      obtain ⟨rfl, -⟩ := Utf8.utf8EncodeChar_append_inj heq
      exact ⟨c, rfl, hd⟩

/-- Where every item is a token, each cut spells its token. -/
theorem forall₂_spells {cuts : List Cut} {pos : Pos} {tokens : List Token}
    (h : itemsOf pos cuts = tokens.map Item.token) :
    List.Forall₂ (fun p t => Spells p.lexeme t) (cuts.map Cut.piece) tokens := by
  induction cuts generalizing pos tokens with
  | nil =>
      obtain rfl : tokens = [] := by simpa [itemsOf] using h.symm
      exact .nil
  | cons cut cuts ih =>
      cases tokens with
      | nil => cases h
      | cons t tokens =>
          obtain ⟨hitem, hrest⟩ := List.cons.inj h
          have hshows := cut.shows_item pos
          rw [hitem] at hshows
          exact .cons hshows (ih hrest)

/-- Where every item is a token, words and numerals are kept apart. -/
theorem separated_of_scans {s trailing : List Symbol} {cuts : List Cut}
    (hscans : Scans s cuts trailing) {pos : Pos} {tokens : List Token}
    (h : itemsOf pos cuts = tokens.map Item.token) : Separated (cuts.map Cut.piece) := by
  have htoken : ∀ cut ∈ cuts, ∃ pos t, cut.item pos = .token t := by
    intro cut hcut
    obtain ⟨k, hk⟩ := List.mem_iff_getElem?.1 hcut
    have hitem := getElem?_itemsOf pos cuts k
    rw [h, hk, List.getElem?_map, Option.map_some, Option.map_eq_some_iff] at hitem
    obtain ⟨t, -, ht⟩ := hitem
    exact ⟨_, t, ht.symm⟩
  refine (List.isChain_map Cut.piece).2 (hscans.isChain.imp_of_mem_imp ?_)
  intro a b ha hb hapart hrun hrun' hspace
  obtain ⟨_, _, hitem⟩ := htoken a ha
  obtain ⟨_, _, hitem'⟩ := htoken b hb
  obtain ⟨c, hc, hpart⟩ := isWordPart_first hrun hitem
  obtain ⟨d, hd, hpart'⟩ := isWordPart_first hrun' hitem'
  have hblanks : b.blanks = [] := by
    refine List.eq_nil_iff_forall_not_mem.2 fun s hs => bytes_ne_nil s ?_
    exact List.flatMap_eq_nil_iff.1 hspace s hs
  have hends := hapart hblanks
  rw [hc, hd, continues_wordPart hpart, hpart'] at hends
  cases hends

/-- Behind a lexeme of a sentence stands nothing that would continue it. -/
theorem head?_not_continues {s : Bytes} {t : Token} {c : Char} {ds : List Char}
    (hreads : ReadsAs s t c ds) {pieces : List Piece} {tokens : List Token} {trailing : Bytes}
    (hspells : List.Forall₂ (fun p t => Spells p.lexeme t) pieces tokens)
    (hapart : ∀ p ∈ pieces.head?, IsRun s → IsRun p.lexeme → p.space ≠ [])
    (htrailing : WhiteSpace trailing) :
    ∀ a ∈ (Utf8.symbols (pieces.flatMap Piece.bytes ++ trailing)).head?,
      continues (.char c) a = false := by
  intro a ha
  cases hspells with
  | nil =>
      obtain ⟨cs, hcs, rfl⟩ := htrailing
      cases cs with
      | nil => cases ha
      | cons d cs =>
          obtain rfl : Symbol.char d = a := by simpa using ha
          exact continues_blank _ (hcs d List.mem_cons_self)
  | @cons p u pieces _ hp _ =>
      obtain ⟨cs, hcs, hspace⟩ := p.blank
      rw [List.flatMap_cons, Piece.bytes, hspace, List.append_assoc, List.append_assoc,
        Utf8.symbols_encode_append] at ha
      -- Where no white space comes between, one of the two lexemes is a mark.
      cases cs with
      | cons d cs =>
          obtain rfl : Symbol.char d = a := by simpa using ha
          exact continues_blank _ (hcs d List.mem_cons_self)
      | nil =>
          obtain ⟨e, es, hnext⟩ := hp.exists_readsAs
          rw [hnext.spelling, Utf8.symbols_encode_append] at ha
          obtain rfl : Symbol.char e = a := by simpa using ha
          rcases hreads.sort with ⟨kind, hmark⟩ | ⟨hpart, hrun⟩
          · exact continues_mark hmark _
          · rcases hnext.sort with ⟨kind, hmark⟩ | ⟨-, hrun'⟩
            · rw [continues_wordPart hpart]
              exact marks_not_isWordPart _ (punctuation?_eq_some_iff.1 hmark)
            · exact absurd hspace (hapart p rfl hrun hrun')

/-- The scanner reads a sentence of the grammar as its tokens. -/
theorem exists_scans_of_layout {pieces : List Piece} {tokens : List Token} {trailing : Bytes}
    (hspells : List.Forall₂ (fun p t => Spells p.lexeme t) pieces tokens)
    (hapart : Separated pieces) (htrailing : WhiteSpace trailing) :
    ∃ cuts rest, Scans (Utf8.symbols (pieces.flatMap Piece.bytes ++ trailing)) cuts rest ∧
      ∀ pos, ∃ found, itemsOf pos cuts = found.map Item.token ∧ SameTokens found tokens := by
  induction hspells with
  | nil =>
      obtain ⟨cs, hcs, rfl⟩ := htrailing
      refine ⟨[], cs.map Symbol.char, ?_, fun pos => ⟨[], rfl, .nil⟩⟩
      rw [List.flatMap_nil, List.nil_append, Utf8.symbols_encode]
      exact .done (by simpa [isBlank] using hcs)
  | @cons p t pieces tokens hp hrest ih =>
      obtain ⟨c, ds, hreads⟩ := hp.exists_readsAs
      obtain ⟨cs, hcs, hspace⟩ := p.blank
      obtain ⟨hhead, htail⟩ := List.isChain_cons.1 hapart
      obtain ⟨cuts, rest, hscans, hitems⟩ := ih htail
      let cut : Cut := ⟨cs.map Symbol.char, .char c, ds.map Symbol.char,
        by simpa [isBlank] using hcs, hreads.visible, by simpa using hreads.joined⟩
      have hsymbols : Utf8.symbols ((p :: pieces).flatMap Piece.bytes ++ trailing) =
          cut.symbols ++ Utf8.symbols (pieces.flatMap Piece.bytes ++ trailing) := by
        rw [List.flatMap_cons, Piece.bytes, hspace, hreads.spelling, List.append_assoc,
          List.append_assoc, Utf8.symbols_encode_append, Utf8.symbols_encode_append,
          ← List.append_assoc]
        rfl
      refine ⟨cut :: cuts, rest, ?_, fun pos => ?_⟩
      · rw [hsymbols]
        exact .cut cut (head?_not_continues hreads hrest hhead htrailing) hscans
      · obtain ⟨found, hfound, hsame⟩ := hitems (pos.advanceAll cut.symbols)
        refine ⟨⟨t.kind, t.text, t.value, pos.advanceAll cut.blanks⟩ :: found, ?_, ?_⟩
        · rw [itemsOf, hfound, List.map_cons, Cut.item, hreads.gives]
        · exact .cons (same_iff.2 ⟨rfl, rfl, rfl⟩) hsame

theorem sentence_of_tokenize {source : Bytes} {found tokens : List Token}
    (h : tokenize source = .ok found) (hsame : SameTokens found tokens) :
    Sentence source tokens := by
  obtain ⟨cuts, trailing, hscans⟩ := exists_scans (Utf8.symbols source)
  have hitems : itemsOf .start cuts = found.map Item.token :=
    (hscans.items_eq .start).symm.trans (tokenize_eq_ok_iff.1 h)
  refine ⟨hscans.layout, ?_, ?_, separated_of_scans hscans hitems⟩
  · rw [hscans.layout_bytes, Utf8.flatMap_bytes_symbols]
  · exact forall₂_comp (fun _ _ _ hspells => hspells.of_same) (forall₂_spells hitems) hsame

theorem tokenize_of_sentence {source : Bytes} {tokens : List Token}
    (h : Sentence source tokens) :
    ∃ found, tokenize source = .ok found ∧ SameTokens found tokens := by
  obtain ⟨layout, rfl, hspells, hapart⟩ := h
  obtain ⟨cuts, rest, hscans, hitems⟩ := exists_scans_of_layout hspells hapart layout.blank
  obtain ⟨found, hfound, hsame⟩ := hitems .start
  exact ⟨found, tokenize_eq_ok_iff.2 ((hscans.items_eq .start).trans hfound), hsame⟩

/-- A source gives tokens exactly if it is a sentence of the grammar with these tokens, and no
source is a sentence with two different lists of tokens. -/
theorem tokenize_ok_iff_sentence (source : Bytes) :
    (∀ tokens, (∃ found, tokenize source = .ok found ∧ SameTokens found tokens) ↔
      Sentence source tokens) ∧
    ∀ tokens others, Sentence source tokens → Sentence source others →
      SameTokens tokens others := by
  refine ⟨fun tokens => ⟨?_, tokenize_of_sentence⟩, ?_⟩
  · rintro ⟨found, hfound, hsame⟩
    exact sentence_of_tokenize hfound hsame
  · intro tokens others h h'
    obtain ⟨found, hfound, hsame⟩ := tokenize_of_sentence h
    obtain ⟨found', hfound', hsame'⟩ := tokenize_of_sentence h'
    obtain rfl : found = found' := Except.ok.inj (hfound.symm.trans hfound')
    exact hsame.symm.trans hsame'

end Lexer
end CrossCompiler
