import Mathlib.Data.List.Forall2
import Intcode.Proofs.Execution
import Intcode.Proofs.NumeralGrammar
import Intcode.Proofs.ProgramText

/-!
# Which texts are programs

A text is read as a program exactly if the pieces between its commas are decimal numerals of words,
with blanks around them. A text of blanks only is refused as empty, and every other text that is no
program is refused for the first of its pieces that is no such numeral. The blanks at the ends of a
text are blanks at the ends of its outer pieces, so it makes no difference that they are cut off
before the text is taken apart.

* `Separated`, `StandsFor`, `FirstFault` — pieces, and what they stand for;
* `readPieces_eq_ok_iff`, `readPieces_eq_error_iff` — reading pieces;
* `parse_eq` — a text is read as it stands, blanks and all;
* `parse_grammar` — the main statement about texts;
* `render_inverse` — the main statement about programs that are written and read.
-/

namespace Intcode.Program

open Text

variable {index k : Nat} {piece token source a b : List Char} {pieces : List (List Char)} {w : Word}
  {words : List Word} {e : ParseError}

/-! ### The grammar

The three relations say what a program text is without saying how it is read: how a text is cut into
pieces, which of them stand for a word, and which one is to blame if not all of them do. -/

/-- A text consists of one piece or more, with commas between them. -/
inductive Separated : List Char → List (List Char) → Prop
  | last {piece : List Char} (hcomma : ',' ∉ piece) : Separated piece [piece]
  | next {piece rest : List Char} {pieces : List (List Char)} (hcomma : ',' ∉ piece)
      (hrest : Separated rest pieces) : Separated (piece ++ ',' :: rest) (piece :: pieces)

/-- A piece is a decimal numeral of a word, with blanks around it. -/
inductive StandsFor : List Char → Word → Prop
  | intro {a numeral b : List Char} {w : Word} (ha : ∀ c ∈ a, isBlank c) (hb : ∀ c ∈ b, isBlank c)
      (hnumeral : Numeral.Decimal numeral w.toInt) : StandsFor (a ++ numeral ++ b) w

/-- The first of the pieces that stands for no word is the one at `index`, counted from zero, and
`token` is this piece without the blanks at its ends. -/
structure FirstFault (pieces : List (List Char)) (index : Nat) (token : List Char) : Prop where
  stray : ∃ piece, pieces[index]? = some piece ∧ (∀ w, ¬ StandsFor piece w) ∧ Trimmed piece token
  least : ∀ k < index, ∀ piece, pieces[k]? = some piece → ∃ w, StandsFor piece w

/-! ### Pieces of a text

A text has exactly one decomposition into pieces, and blanks at its ends end up at the ends of its
outer pieces. So a text can be taken apart with them or without them. -/

/-- A text is separated into what is found between its commas. -/
theorem separated_splitOn (source : List Char) : Separated source (source.splitOn ',') := by
  -- the induction is on the length, and goes on behind the first comma
  induction hn : source.length using Nat.strongRecOn generalizing source with
  | ind n ih =>
    by_cases hmem : ',' ∈ source
    · obtain ⟨piece, rest, rfl, hcomma⟩ := List.eq_append_cons_of_mem hmem
      rw [List.splitOn_append_cons_self_of_not_mem hcomma]
      have hless : rest.length < n := by
        rw [← hn, List.length_append, List.length_cons]
        omega
      exact .next hcomma (ih _ hless rest rfl)
    · rw [List.splitOn_eq_singleton hmem]
      exact .last hmem

theorem separated_iff : Separated source pieces ↔ source.splitOn ',' = pieces := by
  constructor
  · intro h
    induction h with
    | last hcomma => exact List.splitOn_eq_singleton hcomma
    | next hcomma _ ih => rw [List.splitOn_append_cons_self_of_not_mem hcomma, ih]
  · rintro rfl
    exact separated_splitOn source

theorem comma_notMem_of_blank (h : ∀ c ∈ a, isBlank c) : ',' ∉ a := fun hmem =>
  absurd (h _ hmem) (by decide)

/-- Blanks behind a text are blanks behind its last piece. -/
theorem Separated.append_blanks (h : Separated source pieces) (hb : ∀ c ∈ b, isBlank c) :
    ∃ pieces', Separated (source ++ b) pieces' ∧ pieces'.map trim = pieces.map trim := by
  induction h with
  | @last piece hcomma =>
    refine ⟨[piece ++ b], .last ?_, ?_⟩
    · rw [List.mem_append]
      rintro (h | h)
      · exact hcomma h
      · exact comma_notMem_of_blank hb h
    · exact congrArg ([·]) (trim_append_append (a := []) (by simp) hb)
  | @next piece rest pieces hcomma _ ih =>
    obtain ⟨pieces', hrest, htrim⟩ := ih
    refine ⟨piece :: pieces', ?_, ?_⟩
    · rw [List.append_assoc, List.cons_append]
      exact .next hcomma hrest
    · rw [List.map_cons, List.map_cons, htrim]

/-- Blanks in front of a text are blanks in front of its first piece. -/
theorem Separated.blanks_append (h : Separated source pieces) (ha : ∀ c ∈ a, isBlank c) :
    ∃ pieces', Separated (a ++ source) pieces' ∧ pieces'.map trim = pieces.map trim := by
  -- blanks in front go to the first piece, where they are trimmed away again
  have hfront : ∀ {piece : List Char}, ',' ∉ piece → ',' ∉ a ++ piece := by
    intro piece hcomma
    rw [List.mem_append]
    rintro (h | h)
    · exact comma_notMem_of_blank ha h
    · exact hcomma h
  have htrim : ∀ piece : List Char, trim (a ++ piece) = trim piece := by
    intro piece
    have h : trim (a ++ piece ++ []) = trim piece := trim_append_append ha (by simp)
    rwa [List.append_nil] at h
  cases h with
  | last hcomma => exact ⟨_, .last (hfront hcomma), congrArg ([·]) (htrim _)⟩
  | next hcomma hrest =>
    rw [← List.append_assoc]
    refine ⟨_, .next (hfront hcomma) hrest, ?_⟩
    rw [List.map_cons, List.map_cons, htrim]

/-! ### Reading pieces

Each piece is read by itself, and so a row of pieces is read exactly if all of them are. -/

/-- A numeral has no blanks. -/
theorem bareEnds_of_decimal {n : Int} (h : Numeral.Decimal token n) : BareEnds token := by
  refine .of_forall fun c hc => ?_
  rcases h.mem hc with rfl | rfl | hdigit
  · decide
  · decide
  · exact Assembly.isBlank_of_isPlain (Assembly.isPlain_of_isDigit hdigit)

/-- A piece stands for the word that is read from it without its blanks. -/
theorem standsFor_iff : StandsFor piece w ↔ Numeral.readDecimal (trim piece) = .ok w := by
  rw [Numeral.readDecimal_eq_ok_iff]
  constructor
  · rintro ⟨ha, hb, hnumeral⟩
    rwa [trim_blanks ha hb (bareEnds_of_decimal hnumeral)]
  · obtain ⟨token, htoken⟩ : ∃ token, trim piece = token := ⟨_, rfl⟩
    rw [htoken]
    intro h
    cases trim_eq_iff.mp htoken with
    | intro ha hb _ => exact .intro ha hb h

/-- A piece is read as the word that it stands for. -/
theorem readPiece_eq_ok_iff : readPiece index piece = .ok w ↔ StandsFor piece w := by
  rw [standsFor_iff]
  unfold readPiece
  cases Numeral.readDecimal (trim piece) with
  | ok word => simp
  | error fault => simp

/-- A piece that stands for no word is refused, with its index and with its text without blanks. -/
theorem readPiece_of_stray (h : ∀ w, ¬ StandsFor piece w) (htoken : Trimmed piece token) :
    readPiece index piece = .error (.invalidWord index (String.ofList token)) := by
  unfold readPiece
  cases hread : Numeral.readDecimal (trim piece) with
  | ok w => exact absurd (standsFor_iff.mpr hread) (h w)
  | error _ => rw [trim_eq_iff.mpr htoken]

/-- Blanks at the ends of pieces make no difference. -/
theorem readPieces_map_trim (index : Nat) (pieces : List (List Char)) :
    readPieces index (pieces.map trim) = readPieces index pieces := by
  induction pieces generalizing index with
  | nil => rfl
  | cons piece pieces ih =>
    have hpiece : readPiece index (trim piece) = readPiece index piece := by
      unfold readPiece
      rw [trim_trim]
    rw [List.map_cons, readPieces, readPieces, hpiece, ih]

/-- **Pieces are read** as the words that they stand for, if each of them stands for one. -/
theorem readPieces_eq_ok_iff :
    readPieces index pieces = .ok words ↔ List.Forall₂ StandsFor pieces words := by
  induction pieces generalizing index words with
  | nil =>
    constructor
    · intro h
      cases h
      exact .nil
    · intro h
      cases h
      rfl
  | cons piece pieces ih =>
    -- a piece is read on its own, so the list is read exactly if each of its pieces is
    rw [readPieces, bind_eq_ok]
    constructor
    · rintro ⟨w, hpiece, h⟩
      obtain ⟨rest, hrest, hwords⟩ := bind_eq_ok.mp h
      cases hwords
      exact .cons (readPiece_eq_ok_iff.mp hpiece) (ih.mp hrest)
    · intro h
      cases h with
      | cons hpiece hrest =>
        exact ⟨_, readPiece_eq_ok_iff.mpr hpiece, bind_eq_ok.mpr ⟨_, ih.mpr hrest, rfl⟩⟩

/-! ### The first piece that stands for no word

Which piece is to blame is found along the row: it is the first one, or, if the first one stands for
a word, it is found among the others, and its index is one higher. -/

/-- A first piece that stands for no word is the one to blame. -/
theorem firstFault_cons_of_stray (h : ∀ w, ¬ StandsFor piece w) :
    FirstFault (piece :: pieces) index token ↔ index = 0 ∧ Trimmed piece token := by
  constructor
  · rintro ⟨⟨stray, hstray, -, htoken⟩, hleast⟩
    cases index with
    | zero =>
      cases hstray
      exact ⟨rfl, htoken⟩
    | succ index =>
      obtain ⟨w, hw⟩ := hleast 0 index.succ_pos piece rfl
      exact absurd hw (h w)
  · rintro ⟨rfl, htoken⟩
    exact ⟨⟨piece, rfl, h, htoken⟩, fun k hk => absurd hk k.not_lt_zero⟩

/-- Behind a piece that stands for a word, the others are searched. -/
theorem firstFault_cons_of_standsFor (h : StandsFor piece w) :
    FirstFault (piece :: pieces) index token ↔ ∃ k, index = k + 1 ∧ FirstFault pieces k token := by
  constructor
  · -- the first piece stands for a word, so the fault is one position further on
    rintro ⟨⟨stray, hstray, hnone, htoken⟩, hleast⟩
    cases index with
    | zero =>
      cases hstray
      exact absurd h (hnone w)
    | succ index =>
      exact ⟨index, rfl, ⟨stray, hstray, hnone, htoken⟩,
        fun k hk => hleast (k + 1) (Nat.succ_lt_succ hk)⟩
  · rintro ⟨k, rfl, hstray, hleast⟩
    refine ⟨hstray, fun j hj piece' hpiece' => ?_⟩
    cases j with
    | zero =>
      cases hpiece'
      exact ⟨w, h⟩
    | succ j => exact hleast j (Nat.lt_of_succ_lt_succ hj) piece' hpiece'

/-- **Pieces are refused** for the first of them that stands for no word. -/
theorem readPieces_eq_error_iff :
    readPieces k pieces = .error e ↔
      ∃ index token, FirstFault pieces index token ∧
        e = .invalidWord (k + index) (String.ofList token) := by
  induction pieces generalizing k with
  | nil =>
    constructor
    · intro h
      contradiction
    · rintro ⟨index, token, ⟨⟨piece, hpiece, -⟩, -⟩, -⟩
      contradiction
  | cons piece pieces ih =>
    by_cases hpiece : ∃ w, StandsFor piece w
    · -- the piece is read, and what is said about the others is counted from one further on
      obtain ⟨w, hw⟩ := hpiece
      have hlater : readPieces k (piece :: pieces) = (w :: ·) <$> readPieces (k + 1) pieces := by
        rw [readPieces, readPiece_eq_ok_iff.mpr hw]
        rfl
      rw [hlater, map_eq_error, ih]
      constructor
      · rintro ⟨index, token, hfault, rfl⟩
        refine ⟨index + 1, token, (firstFault_cons_of_standsFor hw).mpr ⟨index, rfl, hfault⟩, ?_⟩
        rw [Nat.add_right_comm, Nat.add_assoc]
      · rintro ⟨_, token, hfault, rfl⟩
        obtain ⟨index, rfl, hrest⟩ := (firstFault_cons_of_standsFor hw).mp hfault
        refine ⟨index, token, hrest, ?_⟩
        rw [Nat.add_right_comm, Nat.add_assoc]
    · have hstray : ∀ w, ¬ StandsFor piece w := not_exists.mp hpiece
      have hread : readPiece k piece = .error (.invalidWord k (String.ofList (trim piece))) :=
        readPiece_of_stray hstray (trimmed_trim piece)
      rw [readPieces, hread]
      constructor
      · intro h
        cases h
        exact ⟨0, _, (firstFault_cons_of_stray hstray).mpr ⟨rfl, trimmed_trim piece⟩, rfl⟩
      · rintro ⟨index, token, hfault, rfl⟩
        obtain ⟨rfl, htoken⟩ := (firstFault_cons_of_stray hstray).mp hfault
        rw [trim_eq_iff.mpr htoken]
        rfl

/-! ### Texts

The blanks at the ends of a text are cut off before it is taken apart. This is seen only in a text
that consists of blanks, which is refused as empty and not for its single piece. -/

/-- The blanks at the ends of a text do not change its pieces, but for the blanks at their ends. -/
theorem map_trim_splitOn_trim (source : List Char) :
    ((trim source).splitOn ',').map trim = (source.splitOn ',').map trim := by
  obtain ⟨body, htrim⟩ : ∃ body, trim source = body := ⟨_, rfl⟩
  rw [htrim]
  cases trim_eq_iff.mp htrim with
  | intro ha hb _ =>
    obtain ⟨front, hfront, htrimFront⟩ := (separated_splitOn body).blanks_append ha
    obtain ⟨whole, hwhole, htrimWhole⟩ := hfront.append_blanks hb
    rw [separated_iff.mp hwhole, htrimWhole, htrimFront]

/-- **A text is refused as empty** exactly if it has nothing but blanks. -/
theorem parse_eq_empty_iff {source : String} :
    parse source = .error .empty ↔ ∀ c ∈ source.toList, isBlank c := by
  rw [← trim_eq_nil_iff]
  unfold parse
  split
  · next hnil => exact ⟨fun _ => hnil, fun _ => rfl⟩
  · next hne =>
    constructor
    · intro h
      obtain ⟨index, token, -, heq⟩ := readPieces_eq_error_iff.mp (map_eq_error.mp h)
      contradiction
    · intro hnil
      contradiction

/-- **A text is read as it stands**, unless it has nothing but blanks. -/
theorem parse_eq {source : String} (h : ∃ c ∈ source.toList, isBlank c = false) :
    parse source = Program.mk <$> readPieces 0 (source.toList.splitOn ',') := by
  have hne : trim source.toList ≠ [] := by
    obtain ⟨c, hc, hbare⟩ := h
    intro hnil
    have hblank := trim_eq_nil_iff.mp hnil c hc
    rw [hbare] at hblank
    contradiction
  rw [← readPieces_map_trim, ← map_trim_splitOn_trim, readPieces_map_trim]
  unfold parse
  split
  · contradiction
  · rfl

/-- Blanks alone are no numeral. -/
theorem not_standsFor_of_blank (h : ∀ c ∈ piece, isBlank c) : ¬ StandsFor piece w := by
  rw [standsFor_iff, trim_eq_nil_iff.mpr h]
  intro hread
  contradiction

/-- **A text is a program** exactly if each of its pieces stands for a word. -/
theorem parse_eq_ok_iff {source : String} {p : Program} :
    parse source = .ok p ↔
      ∃ pieces, Separated source.toList pieces ∧ List.Forall₂ StandsFor pieces p.words := by
  by_cases hblank : ∀ c ∈ source.toList, isBlank c
  · -- such a text is one piece, and that is no numeral
    rw [parse_eq_empty_iff.mpr hblank]
    constructor
    · intro h
      contradiction
    · rintro ⟨pieces, hpieces, hwords⟩
      rw [separated_iff, List.splitOn_eq_singleton (comma_notMem_of_blank hblank)] at hpieces
      subst hpieces
      obtain ⟨w, rest, hpiece, -⟩ := List.forall₂_cons_left_iff.mp hwords
      exact absurd hpiece (not_standsFor_of_blank hblank)
  · rw [parse_eq (by simpa using hblank)]
    constructor
    · intro h
      obtain ⟨words, hread, rfl⟩ := map_eq_ok.mp h
      exact ⟨_, separated_splitOn _, readPieces_eq_ok_iff.mp hread⟩
    · rintro ⟨pieces, hpieces, hwords⟩
      rw [separated_iff.mp hpieces, readPieces_eq_ok_iff.mpr hwords]
      rfl

/-- **A text is refused for a word** exactly if it has more than blanks and a piece that stands for
no word, and then for the first of these. -/
theorem parse_eq_invalidWord_iff {source token : String} :
    parse source = .error (.invalidWord index token) ↔
      (∃ c ∈ source.toList, isBlank c = false) ∧
        ∃ pieces, Separated source.toList pieces ∧ FirstFault pieces index token.toList := by
  -- a blank source is refused before it is split, and would else show an empty piece as its fault
  by_cases hblank : ∀ c ∈ source.toList, isBlank c
  · rw [parse_eq_empty_iff.mpr hblank]
    constructor
    · intro h
      cases h
    · rintro ⟨⟨c, hc, hbare⟩, -⟩
      rw [hblank c hc] at hbare
      contradiction
  · have hbare : ∃ c ∈ source.toList, isBlank c = false := by simpa using hblank
    rw [parse_eq hbare]
    constructor
    · intro h
      obtain ⟨k, cs, hfault, heq⟩ := readPieces_eq_error_iff.mp (map_eq_error.mp h)
      obtain ⟨rfl, rfl⟩ := ParseError.invalidWord.inj heq
      rw [Nat.zero_add, String.toList_ofList]
      exact ⟨hbare, _, separated_splitOn _, hfault⟩
    · rintro ⟨-, pieces, hpieces, hfault⟩
      have hread : readPieces 0 pieces = .error (.invalidWord index token) := by
        refine readPieces_eq_error_iff.mpr ⟨index, token.toList, hfault, ?_⟩
        rw [Nat.zero_add, String.ofList_toList]
      rw [separated_iff.mp hpieces, hread]
      rfl

/-- A program that has been read has a word. -/
theorem words_ne_nil_of_parse {source : String} {p : Program} (h : parse source = .ok p) :
    p.words ≠ [] := by
  obtain ⟨pieces, hpieces, hwords⟩ := parse_eq_ok_iff.mp h
  intro hnil
  rw [hnil, List.forall₂_nil_right_iff] at hwords
  rw [hwords, separated_iff] at hpieces
  exact List.splitOn_ne_nil ',' _ hpieces

/-- **Which texts are programs.** A text is refused as empty exactly if it consists of blanks only.
It is read as a program exactly if it consists of one piece or more with commas between them, each
of them a decimal numeral with blanks around it, and the words of the program are what the numerals
stand for, in order. Every other text is refused for the first of its pieces that is no such numeral,
with the index of this piece and its text without the blanks around it. -/
theorem parse_grammar (source : String) :
    (parse source = .error .empty ↔ ∀ c ∈ source.toList, isBlank c) ∧
    (∀ p, parse source = .ok p ↔
      ∃ pieces, Separated source.toList pieces ∧ List.Forall₂ StandsFor pieces p.words) ∧
    (∀ index token, parse source = .error (.invalidWord index token) ↔
      (∃ c ∈ source.toList, isBlank c = false) ∧
        ∃ pieces, Separated source.toList pieces ∧ FirstFault pieces index token.toList) ∧
    ∀ p, parse source = .ok p → p.words ≠ [] :=
  ⟨parse_eq_empty_iff, fun _ => parse_eq_ok_iff, fun _ _ => parse_eq_invalidWord_iff,
    fun _ => words_ne_nil_of_parse⟩

theorem parse_grammar_stray :
    parse " 1,+002 ,\n-3" = .ok ⟨[1, 2, -3]⟩ ∧ [1, 2, -3] ≠ ([] : List Word) ∧
      ∃ pieces, Separated " 4, x y\t,".toList pieces ∧ FirstFault pieces 1 "x y".toList := by
  refine ⟨by decide +kernel, (parse_grammar " 1,+002 ,\n-3").2.2.2 ⟨[1, 2, -3]⟩ ?_,
    (((parse_grammar " 4, x y\t,").2.2.1 1 "x y").mp ?_).2⟩
  · decide +kernel
  · decide +kernel

/-! ### Programs that are written and read

A program is written with commas and nothing else, so it is read from its text unless it is empty.
That reading inverts writing makes the text of a program its own. -/

/-- A program is read from its own text, except the empty one. -/
theorem parse_render_self (p : Program) :
    parse p.render = if p.words = [] then .error .empty else .ok p := by
  by_cases hnil : p.words = []
  · have h := parse_render_nil (a := []) (b := []) hnil (by simp) (by simp)
    rw [List.nil_append, List.append_nil, String.ofList_toList] at h
    rw [if_pos hnil, h]
  · have h := parse_render (a := []) (b := []) hnil (by simp) (by simp)
    rw [List.nil_append, List.append_nil, String.ofList_toList] at h
    rw [if_neg hnil, h]

/-- Two programs have two texts. -/
theorem render_injective : Function.Injective render := by
  intro p q h
  have hparse : parse p.render = parse q.render := congrArg parse h
  rw [parse_render_self, parse_render_self] at hparse
  -- the empty program is told apart by the refusal of its text, and any other by what is read
  by_cases hp : p.words = [] <;> by_cases hq : q.words = []
  · exact congrArg Program.mk (hp.trans hq.symm)
  · rw [if_pos hp, if_neg hq] at hparse
    contradiction
  · rw [if_neg hp, if_pos hq] at hparse
    contradiction
  · rw [if_neg hp, if_neg hq] at hparse
    exact Except.ok.inj hparse

/-- **Reading inverts writing.** A program with a word is read from its text with any blanks around
it, and the text of the empty program with any blanks around it is refused as empty. So no two
programs have the same text, and what has been read from any text is read again from its own. -/
theorem render_inverse :
    (∀ (p : Program) (a b : String), p.words ≠ [] → (∀ c ∈ a.toList, isBlank c) →
      (∀ c ∈ b.toList, isBlank c) → parse (a ++ p.render ++ b) = .ok p) ∧
    (∀ a b : String, (∀ c ∈ a.toList, isBlank c) → (∀ c ∈ b.toList, isBlank c) →
      parse (a ++ render ⟨[]⟩ ++ b) = .error .empty) ∧
    Function.Injective render ∧
    ∀ source p, parse source = .ok p → parse p.render = .ok p := by
  have hchars : ∀ (p : Program) (a b : String),
      a ++ p.render ++ b = String.ofList (a.toList ++ p.render.toList ++ b.toList) := by
    intro p a b
    rw [← String.toList_inj]
    simp
  refine ⟨?_, ?_, render_injective, ?_⟩
  · intro p a b hne ha hb
    rw [hchars]
    exact parse_render hne ha hb
  · intro a b ha hb
    rw [hchars]
    exact parse_render_nil rfl ha hb
  · intro source p hparse
    rw [parse_render_self, if_neg (words_ne_nil_of_parse hparse)]

theorem render_inverse_extremes :
    parse (" \n" ++ render ⟨[-9223372036854775808, 0, 9223372036854775807]⟩ ++ "\u3000") =
        .ok ⟨[-9223372036854775808, 0, 9223372036854775807]⟩ ∧
      parse ("\t" ++ render ⟨[]⟩ ++ "\n") = .error .empty ∧
      parse (render ⟨[7, 0]⟩) = .ok ⟨[7, 0]⟩ := by
  have hblank : ∀ text : String, text.toList.all isBlank → ∀ c ∈ text.toList, isBlank c :=
    fun _ h => List.all_eq_true.mp h
  refine ⟨render_inverse.1 _ _ _ (List.cons_ne_nil _ _) (hblank _ ?_) (hblank _ ?_),
    render_inverse.2.1 _ _ (hblank _ ?_) (hblank _ ?_), render_inverse.2.2.2 " +7 ,-0" ⟨[7, 0]⟩ ?_⟩
  all_goals decide +kernel

end Intcode.Program
