import Mathlib.Data.List.TakeWhile
import Intcode.Command.Input

/-!
# The stream of an input source

What is left in an input source, as one list: the values that it still delivers, and the fault that
comes after them. How the values are spread over the queue and the lines that have not been read is
not visible from outside.

* `InputSource.stream` — the stream of a source;
* `InputSource.next_gives` — a call takes the first value off the stream, or finds its end;
* `InputSource.delivers_stream` — so successive calls give the values of the stream;
* `InputSource.integersBefore` — the integers on the lines that can be read throughout;
* `InputSource.stream_of_lines` — these come first in the stream of those lines.
-/

namespace Intcode.Command.InputSource

/-! ### Streams

A source is read line by line, and a fault in a line is kept while the first value of the line is
delivered. The stream is what all of this amounts to, from the outside. -/

/-- What a source still delivers, and the fault that it ends with. -/
structure Stream where
  values : List Word
  fault : Option InputFault
  deriving DecidableEq, Repr

/-- The stream with values in front. -/
def Stream.after (values : List Word) (t : Stream) : Stream := ⟨values ++ t.values, t.fault⟩

/-- The stream of lines. Of the values on a line with a fault only the first one is delivered. -/
def lineStream : List RawLine → Stream
  | [] => ⟨[], none⟩
  | line :: rest =>
    match readLine line with
    | (values, some fault) => ⟨values.take 1, some fault⟩
    | (values, none) => (lineStream rest).after values

/-- The stream of a source, which delivers nothing after a fault. -/
def stream (s : InputSource) : Stream :=
  if s.fault.isSome then ⟨[], s.fault⟩ else (lineStream s.unread).after s.queued

/-! ### One call

Each call is one step along the stream. The end is final: after it every call gives nothing again.
-/

/-- What a call gives and leaves behind, by the stream in front of it. -/
inductive Gives : Stream → Option Word × InputSource → Prop where
  | value {value : Word} {values : List Word} {fault : Option InputFault} {s : InputSource}
      (left : s.stream = ⟨values, fault⟩) : Gives ⟨value :: values, fault⟩ (some value, s)
  | nothing {fault : Option InputFault} {s : InputSource} (ended : s.fault = fault)
      (final : s.next = (none, s)) : Gives ⟨[], fault⟩ (none, s)

/-- What is taken from lines that have just been read is the first value of their stream. -/
theorem pop_refill_gives (lines : List RawLine) : Gives (lineStream lines) (refill lines).pop := by
  induction lines with
  | nil => exact .nothing rfl rfl
  | cons line rest ih =>
    unfold lineStream refill
    rcases readLine line with ⟨_ | ⟨value, values⟩, _ | fault⟩
    · -- a blank line is passed over
      exact ih
    · exact .nothing rfl rfl
    · exact .value rfl
    · -- the values behind the first one are lost
      exact .value rfl

/-- A call takes the first value off the stream, or finds the end of the stream. -/
theorem next_gives (s : InputSource) : Gives s.stream s.next := by
  obtain ⟨queued, unread, fault⟩ := s
  unfold stream next
  cases fault with
  | some fault => exact .nothing rfl rfl
  | none =>
    cases queued with
    | nil => exact pop_refill_gives unread
    | cons value queued => exact .value rfl

/-- At the end of the stream a call gives nothing, and the fault of the stream is there. -/
theorem next_of_nil {s : InputSource} (h : s.stream.values = []) :
    ∃ t, s.next = (none, t) ∧ t.fault = s.stream.fault ∧ t.next = (none, t) := by
  have hgives := s.next_gives
  generalize s.stream = left, s.next = given at h hgives
  cases hgives with
  | value => contradiction
  | nothing ended final => exact ⟨_, rfl, ended, final⟩

/-- A call gives the first value of the stream and leaves the others. -/
theorem next_of_cons {s : InputSource} {value : Word} {values : List Word}
    (h : s.stream.values = value :: values) :
    ∃ t, s.next = (some value, t) ∧ t.stream = ⟨values, s.stream.fault⟩ := by
  have hgives := s.next_gives
  generalize s.stream = left, s.next = given at h hgives
  cases hgives with
  | value left =>
    cases h
    exact ⟨_, rfl, left⟩
  | nothing => contradiction

/-- What successive calls give, up to the first one that gives nothing. -/
inductive Delivers : InputSource → List Word → InputSource → Prop where
  | nothing {s t : InputSource} (ended : s.next = (none, t)) : Delivers s [] t
  | value {s t u : InputSource} {value : Word} {values : List Word}
      (given : s.next = (some value, t)) (rest : Delivers t values u) :
      Delivers s (value :: values) u

/-- Calls give the values of the stream, and the fault of the stream is there when they end. -/
theorem delivers_stream {s : InputSource} {values : List Word} {fault : Option InputFault}
    (h : s.stream = ⟨values, fault⟩) : ∃ t, Delivers s values t ∧ t.fault = fault ∧
      t.next = (none, t) := by
  -- each call takes one value off the stream, so it is the values that the induction is on
  induction values generalizing s with
  | nil =>
    obtain ⟨t, ht, hfault, hfinal⟩ := next_of_nil (s := s) (by rw [h])
    rw [h] at hfault
    exact ⟨t, .nothing ht, hfault, hfinal⟩
  | cons value values ih =>
    obtain ⟨t, ht, hleft⟩ := next_of_cons (s := s) (by rw [h])
    rw [h] at hleft
    obtain ⟨u, hu, hend⟩ := ih hleft
    exact ⟨u, .value ht hu, hend⟩

/-- Calls give one list of values. -/
theorem Delivers.unique {s t u : InputSource} {values more : List Word} (h : Delivers s values t)
    (h' : Delivers s more u) : values = more := by
  induction h generalizing more with
  | nothing ended =>
    cases h' with
    | nothing => rfl
    | value given => cases ended.symm.trans given
  | value given _ ih =>
    cases h' with
    | nothing ended => cases given.symm.trans ended
    | value given' rest =>
      cases given.symm.trans given'
      rw [ih rest]

/-! ### Words and lines

The values of a line are found in its words, as far as these are numerals. Lines of numerals only
can be counted without the source that reads them. -/

/-- The integer that a word is the numeral of. -/
def integer? (word : List Char) : Option Word := (Text.Numeral.readDecimal word).toOption

/-- Whether a word is the numeral of an integer in range. -/
def isInteger (word : List Char) : Bool := (integer? word).isSome

/-- The integers in front of the first word that is the numeral of none. -/
def leading (words : List (List Char)) : List Word :=
  (words.takeWhile isInteger).filterMap integer?

/-- The first word that is the numeral of no integer. -/
def invalid? (words : List (List Char)) : Option (List Char) :=
  words.find? fun word => !isInteger word

/-- The words of a text. -/
def wordsOf (text : String) : List (List Char) := Text.fields Text.isBlank text.toList

/-- The integers on a line, unless some word on it is the numeral of none or it is no text. -/
def integers? (line : RawLine) : Option (List Word) :=
  match String.fromUTF8? line.toByteArray with
  | some text =>
    if (wordsOf text).all isInteger then some ((wordsOf text).filterMap integer?) else none
  | none => none

/-- The integers on the lines in front of the first one that cannot be read throughout. -/
def integersBefore : List RawLine → List Word
  | [] => []
  | line :: rest =>
    match integers? line with
    | some values => values ++ integersBefore rest
    | none => []

/-- Words are read up to the first one that is the numeral of no integer. -/
theorem readTokens_eq (words : List (List Char)) :
    readTokens words =
      (leading words, (invalid? words).map fun word => .invalidValue (String.ofList word)) := by
  induction words with
  | nil => rfl
  | cons word words ih =>
    unfold readTokens leading invalid?
    unfold leading invalid? at ih
    rw [ih]
    cases hread : Text.Numeral.readDecimal word <;>
      simp [isInteger, integer?, hread, Except.toOption]

/-- A line can be read throughout if and only if it has no fault. -/
theorem readLine_eq_none_iff {line : RawLine} {values : List Word} :
    readLine line = (values, none) ↔ integers? line = some values := by
  unfold readLine integers?
  cases String.fromUTF8? line.toByteArray with
  | none => simp
  | some text =>
    show readTokens (wordsOf text) = _ ↔ _
    rw [readTokens_eq]
    by_cases hall : (wordsOf text).all isInteger
    · have hnone : invalid? (wordsOf text) = none := by simpa [invalid?] using hall
      have hleading : leading (wordsOf text) = (wordsOf text).filterMap integer? := by
        unfold leading
        rw [List.takeWhile_eq_self_iff.mpr (List.all_eq_true.mp hall)]
      simp [hnone, hleading, hall]
    · have hsome : invalid? (wordsOf text) ≠ none := by simpa [invalid?] using hall
      simp [hsome, hall]

/-- The integers on the lines in front of the first one that cannot be read are delivered first,
and nothing else is if there is no such line. -/
theorem lineStream_eq (lines : List RawLine) :
    ∃ more fault, lineStream lines = ⟨integersBefore lines ++ more, fault⟩ ∧
      ((∀ line ∈ lines, (integers? line).isSome) → more = [] ∧ fault = none) := by
  -- the induction is along the lines, up to the first one that cannot be read throughout
  induction lines with
  | nil => exact ⟨[], none, rfl, fun _ => ⟨rfl, rfl⟩⟩
  | cons line rest ih =>
    obtain ⟨more, fault, hrest, hclean⟩ := ih
    unfold lineStream integersBefore
    cases hline : integers? line with
    | some values =>
      rw [readLine_eq_none_iff.mpr hline]
      refine ⟨more, fault, ?_, fun hall => hclean fun l hl => hall l (List.mem_cons_of_mem _ hl)⟩
      rw [hrest, List.append_assoc]
      rfl
    | none =>
      rcases hread : readLine line with ⟨values, _ | fault⟩
      · rw [readLine_eq_none_iff.mp hread] at hline
        contradiction
      · refine ⟨values.take 1, some fault, rfl, fun hall => ?_⟩
        have hsome := hall line (List.mem_cons_self ..)
        rw [hline] at hsome
        contradiction

/-- The stream of a source that has read nothing yet: what is queued, then the integers on the
lines in front of the first one that cannot be read throughout. -/
theorem stream_of_lines (queued : List Word) (lines : List RawLine) :
    ∃ more fault, stream ⟨queued, lines, none⟩ = ⟨queued ++ integersBefore lines ++ more, fault⟩ ∧
      ((∀ line ∈ lines, (integers? line).isSome) → more = [] ∧ fault = none) := by
  obtain ⟨more, fault, hlines, hclean⟩ := lineStream_eq lines
  refine ⟨more, fault, ?_, hclean⟩
  show (lineStream lines).after queued = _
  rw [hlines, List.append_assoc]
  rfl

/-- Lines behind others add to the integers in front of the first line that cannot be read. -/
theorem integersBefore_append (lines rest : List RawLine) :
    integersBefore lines <+: integersBefore (lines ++ rest) := by
  induction lines with
  | nil => exact List.nil_prefix
  | cons line lines ih =>
    unfold integersBefore
    cases hline : integers? line with
    | none => simp [hline]
    | some values => simpa [hline] using ih

/-- A source delivers what is queued and the integers on its first lines, however it goes on. -/
theorem stream_of_first_lines (queued : List Word) {first lines : List RawLine}
    (h : first <+: lines) :
    queued ++ integersBefore first <+: (stream ⟨queued, lines, none⟩).values := by
  obtain ⟨rest, rfl⟩ := h
  obtain ⟨more, fault, hstream, -⟩ := stream_of_lines queued (first ++ rest)
  rw [hstream]
  refine List.IsPrefix.trans ?_ (List.prefix_append _ _)
  exact (List.prefix_append_right_inj queued).mpr (integersBefore_append first rest)

end Intcode.Command.InputSource
