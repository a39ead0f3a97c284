import Intcode.Proofs.RunCommand
import Intcode.Proofs.Statement

/-!
# How standard input is broken into lines

Standard input is a text, and its words are the integers that a program gets. Where the lines end
makes no difference as long as all words can be read. A word that cannot be read ends the input, and
takes with it some of the values in front of it on its own line: all of them but the first.

* `Text.splitOn_utf8` — the lines of a text and the lines of its UTF-8 form;
* `InputSource.wordsOf_eq` — the words of a text are those of its lines;
* `InputSource.lineStream_lines` — what the lines of a text deliver;
* `InputSource.delivers_words` — the main statement;
* `InputSource.not_delivers_in_front` — values in front of a word that cannot be read are lost.
-/

namespace Intcode

namespace Text

/-! ### Lines in UTF-8

Input is a text here, but lines are cut from its bytes. This comes to the same, because no character
but the line feed has the byte of the line feed in its code. -/

section SplitOn

variable {α : Type} [BEq α] [LawfulBEq α]

/-- What stands in front and has no separator belongs to the first piece. -/
theorem splitOn_append_of_notMem {sep : α} {xs : List α} (h : sep ∉ xs) (ys : List α) :
    (xs ++ ys).splitOn sep = (ys.splitOn sep).modifyHead (xs ++ ·) := by
  induction xs with
  | nil => exact (congrFun List.modifyHead_id _).symm
  | cons x xs ih =>
    have hx : (x == sep) = false := beq_false_of_ne fun heq => h (heq ▸ List.mem_cons_self ..)
    rw [List.cons_append, List.splitOn_cons_eq_if_modifyHead, hx,
      ih fun hmem => h (List.mem_cons_of_mem x hmem)]
    exact List.modifyHead_modifyHead ..

/-- Splitting encoded text gives the encoded pieces, if the separator occurs in no other code. -/
theorem splitOn_flatMap {β : Type} [BEq β] [LawfulBEq β] {sep : β} {code : β → List α} {mark : α}
    (hmark : code sep = [mark]) (hother : ∀ x, x ≠ sep → mark ∉ code x) (xs : List β) :
    (xs.flatMap code).splitOn mark = (xs.splitOn sep).map (·.flatMap code) := by
  induction xs with
  | nil => rfl
  | cons x xs ih =>
    rw [List.flatMap_cons, List.splitOn_cons_eq_if_modifyHead]
    by_cases hx : x = sep
    · rw [if_pos (beq_iff_eq.mpr hx), hx, hmark, List.singleton_append,
        List.splitOn_cons_eq_if_modifyHead, if_pos (beq_self_eq_true mark), ih]
      rfl
    · rw [if_neg (by simpa using hx), splitOn_append_of_notMem (hother x hx), ih]
      cases xs.splitOn sep <;> simp

end SplitOn

/-- The UTF-8 form of characters. -/
def utf8 (cs : List Char) : List UInt8 := cs.flatMap String.utf8EncodeChar

/-- The byte of a line feed is part of no other character. -/
theorem lineFeed_notMem_utf8EncodeChar {c : Char} (h : c ≠ '\n') :
    10 ∉ String.utf8EncodeChar c := by
  have hcode : c.val.toNat ≠ 10 := fun heq => h (Char.ext (UInt32.toNat_inj.mp heq))
  have hbyte : ∀ n : Nat, n % 256 ≠ 10 → (10 : UInt8) ≠ UInt8.ofNat n := by
    intro n hn heq
    exact hn (congrArg UInt8.toNat heq).symm
  unfold String.utf8EncodeChar
  generalize c.val.toNat = v at hcode
  dsimp only
  -- a code of one byte is the character itself, and in a longer one every byte is above 127
  split
  · simpa only [List.mem_singleton] using hbyte _ (by omega)
  · split
    · simp only [List.mem_cons, List.not_mem_nil, or_false, not_or]
      exact ⟨hbyte _ (by omega), hbyte _ (by omega)⟩
    · split
      · simp only [List.mem_cons, List.not_mem_nil, or_false, not_or]
        exact ⟨hbyte _ (by omega), hbyte _ (by omega), hbyte _ (by omega)⟩
      · simp only [List.mem_cons, List.not_mem_nil, or_false, not_or]
        exact ⟨hbyte _ (by omega), hbyte _ (by omega), hbyte _ (by omega), hbyte _ (by omega)⟩

/-- **Lines are the same** before and after encoding. -/
theorem splitOn_utf8 (cs : List Char) : (utf8 cs).splitOn 10 = (lines cs).map utf8 := by
  have hmark : String.utf8EncodeChar '\n' = [10] := rfl
  exact splitOn_flatMap hmark (fun _ => lineFeed_notMem_utf8EncodeChar) cs

theorem toUTF8_toList (text : String) : text.toUTF8.data.toList = utf8 text.toList := by
  conv => lhs; rw [← String.ofList_toList (s := text)]
  exact List.toList_data_toByteArray

theorem fromUTF8?_utf8 (cs : List Char) :
    String.fromUTF8? (utf8 cs).toByteArray = some (String.ofList cs) :=
  dif_pos (String.ofList cs).isValidUTF8

/-! ### Fields

A line feed is a blank like others as far as words are concerned. -/

/-- Where line feeds are separators, the fields of a text are the fields of its lines. -/
theorem fields_eq_flatMap_lines (isSeparator : Char → Bool) (h : isSeparator '\n')
    (cs : List Char) :
    fields isSeparator cs = (lines cs).flatMap (fields isSeparator) := by
  have hjoined : ∀ pieces : List (List Char), fields isSeparator (['\n'].intercalate pieces) =
      pieces.flatMap (fields isSeparator) := by
    intro pieces
    induction pieces with
    | nil => rfl
    | cons piece pieces ih =>
      cases pieces with
      | nil => simp
      | cons next pieces =>
        rw [List.intercalate_cons_cons, List.append_assoc, List.singleton_append,
          fields_append_cons _ _ _ h, ih]
        rfl
  have hlines : ['\n'].intercalate (lines cs) = cs := List.intercalate_splitOn '\n'
  rw [← hjoined, hlines]

end Text

namespace Command

namespace InputSource

/-! ### Lines and words

A line with a word that cannot be read delivers at most one value, however many stand in front of
that word. This is the only way in which lines matter, and `lost` keeps account of it. -/

/-- The words of each line of a text. -/
def wordLines (text : String) : List (List (List Char)) :=
  (Text.lines text.toList).map (Text.fields Text.isBlank)

theorem rawLines_toUTF8 (text : String) :
    rawLines text.toUTF8 = (Text.lines text.toList).map Text.utf8 := by
  unfold rawLines
  rw [Text.toUTF8_toList]
  exact Text.splitOn_utf8 text.toList

/-- Reading an encoded line reads its words. -/
theorem readLine_utf8 (cs : List Char) :
    readLine (Text.utf8 cs) = readTokens (Text.fields Text.isBlank cs) := by
  unfold readLine
  rw [Text.fromUTF8?_utf8]
  show readTokens (Text.fields Text.isBlank (String.ofList cs).toList) = _
  rw [String.toList_ofList]

/-- The words of a text are the words of its lines. -/
theorem wordsOf_eq (text : String) : wordsOf text = (wordLines text).flatten :=
  (Text.fields_eq_flatMap_lines Text.isBlank rfl text.toList).trans List.flatMap_def

/-- The first word that cannot be read is in the first part, or else in the second. -/
theorem invalid?_append (ws vs : List (List Char)) :
    invalid? (ws ++ vs) = (invalid? ws).or (invalid? vs) :=
  List.find?_append

/-- The values in front of the first word that cannot be read continue into a second part only if
the first part has no such word. -/
theorem leading_append (ws vs : List (List Char)) :
    leading (ws ++ vs) = leading ws ++ if (invalid? ws).isNone then leading vs else [] := by
  induction ws with
  | nil => rfl
  | cons w ws ih =>
    unfold leading invalid? at ih ⊢
    cases hw : integer? w with
    | none => simp [isInteger, hw]
    | some value => simpa [isInteger, hw] using ih

/-- Values that are read and not delivered: on the first line with a word that cannot be read, those
in front of the word except the first one. -/
def lost (lines : List (List (List Char))) : List Word :=
  match lines.find? fun words => (invalid? words).isSome with
  | some words => (leading words).drop 1
  | none => []

/-- What cannot be read is the first word that is the numeral of no integer. -/
def faultOf (words : List (List Char)) : Option InputFault :=
  (invalid? words).map fun word => .invalidValue (String.ofList word)

/-- The lines of a text deliver the integers in front of the first word that cannot be read, except
those that are lost. -/
theorem lineStream_lines (lines : List (List Char)) :
    ∃ delivered, lineStream (lines.map Text.utf8) =
        ⟨delivered, faultOf (lines.map (Text.fields Text.isBlank)).flatten⟩ ∧
      leading (lines.map (Text.fields Text.isBlank)).flatten =
        delivered ++ lost (lines.map (Text.fields Text.isBlank)) := by
  induction lines with
  | nil => exact ⟨[], rfl, rfl⟩
  | cons line lines ih =>
    obtain ⟨delivered, hstream, hleading⟩ := ih
    rw [List.map_cons, List.map_cons, List.flatten_cons]
    unfold lineStream faultOf lost
    rw [readLine_utf8, readTokens_eq, invalid?_append, leading_append, List.find?_cons]
    generalize Text.fields Text.isBlank line = words
    -- either the line is read as a whole and the others follow, or it ends the input
    cases hinvalid : invalid? words with
    | none =>
      refine ⟨leading words ++ delivered, ?_, ?_⟩
      · simp only [Option.map_none, Option.none_or]
        rw [hstream]
        rfl
      · simp only [Option.isNone_none, Option.isSome_none, if_true]
        rw [hleading, List.append_assoc]
        rfl
    | some word =>
      refine ⟨(leading words).take 1, rfl, ?_⟩
      simp only [Option.isNone_some, Option.isSome_some]
      rw [if_neg (by simp), List.append_nil, List.take_append_drop]

/-- The lines of a text deliver its leading values except those that are lost. -/
theorem lineStream_text (text : String) :
    ∃ delivered, lineStream (rawLines text.toUTF8) = ⟨delivered, faultOf (wordsOf text)⟩ ∧
      leading (wordsOf text) = delivered ++ lost (wordLines text) := by
  rw [rawLines_toUTF8, wordsOf_eq]
  exact lineStream_lines (Text.lines text.toList)

/-- Where all words can be read, nothing is lost. -/
theorem lost_eq_nil {lines : List (List (List Char))} (h : invalid? lines.flatten = none) :
    lost lines = [] := by
  have hnone : lines.find? (fun words => (invalid? words).isSome) = none := by
    rw [List.find?_eq_none]
    intro words hwords hsome
    unfold invalid? at h hsome
    rw [List.find?_isSome] at hsome
    obtain ⟨word, hword, hinvalid⟩ := hsome
    exact List.find?_eq_none.mp h word (List.mem_flatten_of_mem hwords hword) hinvalid
  unfold lost
  rw [hnone]

end InputSource

/-! ### Reports

An invocation reads standard input only in the session of a run, and there only through the values
that its lines deliver. -/

/-- A report depends on standard input by what its lines deliver. -/
theorem invoke_of_lineStream_eq [Allocator] {a b : ByteArray}
    (h : InputSource.lineStream (rawLines a) = InputSource.lineStream (rawLines b)) (fuel : Nat)
    (arguments : List String) (around : Surroundings) :
    invoke fuel arguments { around with stdin := a } =
      invoke fuel arguments { around with stdin := b } := by
  cases hread : readArguments arguments with
  | error interruption =>
    unfold invoke
    rw [hread]
    cases interruption <;> rfl
  | ok request =>
    rcases plan_cases { around with stdin := b } hread with
      ⟨message, hplan⟩ | ⟨options, p, m, hlaunches⟩ | ⟨file, p, hlists⟩ |
        ⟨file, output, p, hassembles⟩
    · rw [invoke_of_understood hread, invoke_of_understood hread]
      unfold Request.perform
      rw [hplan]
      rfl
    · -- only a run reads standard input, and its session gets the same from both
      have hagrees : hlaunches.session.Agrees (hlaunches.withStdin a).session := by
        refine ⟨rfl, rfl, rfl, Or.inl ?_⟩
        show InputSource.stream ⟨options.inputs, options.lines a, none⟩ =
          InputSource.stream ⟨options.inputs, options.lines b, none⟩
        have hlines : InputSource.lineStream (options.lines a) =
            InputSource.lineStream (options.lines b) := by
          unfold RunOptions.lines
          split
          · exact h
          · rfl
        unfold InputSource.stream
        rw [hlines]
      rw [hlaunches.invoke_eq, (hlaunches.withStdin a).invoke_eq]
      exact hagrees.conclude_run around fuel
    · have hlists' : Lists arguments { around with stdin := a } request file p :=
        ⟨hlists.understood, hlists.order, hlists.program⟩
      rw [hlists.invoke_eq, hlists'.invoke_eq]
      rfl
    · have hassembles' : Assembles arguments { around with stdin := a } request file output p :=
        ⟨hassembles.understood, hassembles.order, hassembles.program, hassembles.apart⟩
      rw [hassembles.invoke_eq, hassembles'.invoke_eq]
      rfl

/-! ### The main statement

The stream of a source is known from its lines, and a report depends on the stream alone. -/

namespace InputSource

/-- **Standard input is a stream of words.** Calls deliver the values of the command line and then,
in order, the integers in front of the first word that is the numeral of none, except those that are
lost with that word. The next call gives nothing, nor does any later one, and the fault names that
word if there is one. Without such a word nothing is lost.

So texts with the same words lead to the same report, in whichever lines they stand, if the same
values are lost in both. -/
theorem delivers_words [Allocator] (queued : List Word) (text : String) :
    (∃ delivered s, leading (wordsOf text) = delivered ++ lost (wordLines text) ∧
      Delivers ⟨queued, rawLines text.toUTF8, none⟩ (queued ++ delivered) s ∧
      s.fault = faultOf (wordsOf text) ∧ s.next = (none, s)) ∧
    (invalid? (wordsOf text) = none → lost (wordLines text) = []) ∧
    ∀ text', wordsOf text' = wordsOf text → lost (wordLines text') = lost (wordLines text) →
      ∀ fuel arguments (around : Surroundings),
        invoke fuel arguments { around with stdin := text'.toUTF8 } =
          invoke fuel arguments { around with stdin := text.toUTF8 } := by
  -- what a text delivers depends on its words and on what its lines lose, so both parts about texts
  -- come from the one stream of its lines
  obtain ⟨delivered, hstream, hleading⟩ := lineStream_text text
  refine ⟨?_, ?_, ?_⟩
  · have hsource : stream ⟨queued, rawLines text.toUTF8, none⟩ =
        ⟨queued ++ delivered, faultOf (wordsOf text)⟩ := by
      show (lineStream (rawLines text.toUTF8)).after queued = _
      rw [hstream]
      rfl
    obtain ⟨s, hs, hfault, hfinal⟩ := delivers_stream hsource
    exact ⟨delivered, s, hleading, hs, hfault, hfinal⟩
  · intro hvalid
    rw [wordsOf_eq] at hvalid
    exact lost_eq_nil hvalid
  · intro text' hwords hlost fuel arguments around
    obtain ⟨delivered', hstream', hleading'⟩ := lineStream_text text'
    rw [hwords] at hstream' hleading'
    rw [hlost, hleading] at hleading'
    rw [← List.append_cancel_right hleading'] at hstream'
    exact invoke_of_lineStream_eq (hstream'.trans hstream.symm) fuel arguments around

/-- Two lines in front of a word that cannot be read deliver all of their integers, and no more comes
after the word. -/
theorem delivers_words_lines :
    (∃ s, Delivers ⟨[7], rawLines "1\n2 x\n3".toUTF8, none⟩ [7, 1, 2] s ∧
      s.fault = some (.invalidValue "x") ∧ s.next = (none, s)) ∧
    ∀ fuel arguments (around : Surroundings),
      invoke fuel arguments { around with stdin := "\n 1\n\n2\n".toUTF8 } =
        invoke fuel arguments { around with stdin := "1 2".toUTF8 } := by
  obtain ⟨⟨delivered, s, hleading, hs, hfault, hfinal⟩, -⟩ := delivers_words [7] "1\n2 x\n3"
  have hall : delivered = [1, 2] := by
    have hlost : lost (wordLines "1\n2 x\n3") = [] := rfl
    rw [hlost, List.append_nil] at hleading
    exact hleading.symm
  rw [hall] at hs
  exact ⟨⟨s, hs, hfault, hfinal⟩, (delivers_words [] "1 2").2.2 "\n 1\n\n2\n" rfl rfl⟩

/-- On one line the second integer is lost with the word behind it. A program that prints both
integers succeeds if there is a line feed between them, and is refused the second one if not. -/
theorem not_delivers_in_front :
    leading (wordsOf "1 2 x") = [1, 2] ∧
    (¬ ∃ s, Delivers ⟨[], rawLines "1 2 x".toUTF8, none⟩ [1, 2] s) ∧
    wordsOf "1\n2 x" = wordsOf "1 2 x" ∧
    (invoke 7 ["run", "p", "--stdin"] { echoing with stdin := "1\n2 x".toUTF8 }).map
      (fun report => (report.output.lines, report.status.code)) = some (#["1", "2"], 0) ∧
    (invoke 7 ["run", "p", "--stdin"] { echoing with stdin := "1 2 x".toUTF8 }).map
      (fun report => (report.output.lines, report.status.code)) = some (#["1"], 1) := by
  have hlaunches : ∀ stdin, Launches ["run", "p", "--stdin"] { echoing with stdin }
      ⟨.quiet, .run ⟨"p", [], [], true⟩⟩ ⟨"p", [], [], true⟩ echo (.ofProgram echo) :=
    fun _ => ⟨rfl, rfl, ⟨echo.render, rfl, rfl⟩, rfl⟩
  refine ⟨rfl, ?_, rfl, ?_, ?_⟩
  · rintro ⟨s, hs⟩
    have hstream : stream ⟨[], rawLines "1 2 x".toUTF8, none⟩ =
        ⟨[1], some (.invalidValue "x")⟩ := rfl
    obtain ⟨t, ht, -⟩ := delivers_stream hstream
    have hsame := hs.unique ht
    contradiction
  · rw [(hlaunches _).invoke_eq]
    unfold Launches.session Machine.ofProgram
    rw [Memory.load_eq_toArray]
    decide +kernel
  · rw [(hlaunches _).invoke_eq]
    unfold Launches.session Machine.ofProgram
    rw [Memory.load_eq_toArray]
    decide +kernel

end InputSource

end Command

end Intcode
